import Amio.Prefetch.Run

/-!
# The steps of calls and fetches

A thread in `get_buffer` that holds `mu_` runs through one, two or all three of the checks before it
returns, drops the lock or waits. `Sectioned` is what every such stretch has in common, and the
three `_spec` theorems say where it can end and what is known there. `CallMove` and `FetchMove` then
say, once for all the invariants that follow, what one step of a call and of a fetch can do.
-/

namespace Amio

namespace PrefetchRun

variable {s s' : PrefetchRun} {c c' f : Nat} {t : Int} {st : Stage} {pc : ReadPc}

@[simp] theorem goto_calls_self (s : PrefetchRun) (c : Nat) (pc : ReadPc) :
    (s.goto c pc).calls c = { s.calls c with pc := pc } :=
  Function.update_self _ _ _

theorem goto_calls_of_ne (s : PrefetchRun) (pc : ReadPc) (h : c' ≠ c) :
    (s.goto c pc).calls c' = s.calls c' :=
  Function.update_of_ne h _ _

/-- Call `c` ran from `s` to the stage `st`, where it goes to `pc`. -/
structure Sectioned (s : PrefetchRun) (c : Nat) (st : Stage) (pc : ReadPc) : Prop where
  pruned : s.stage.Pruned st (s.calls c).timestep
  served : s.stage.Ok → ∃ v, s.stage.Served st c (s.calls c).timestep (s.calls c).bbox v ∧
    ∀ status out, pc = .returned status out → v = .ret status out

/-- A stretch that begins with a check that went on under the lock. -/
theorem Sectioned.after {st₁ : Stage} {v : Verdict}
    (hpruned : s.stage.Pruned st₁ (s.calls c).timestep)
    (hserved : s.stage.Ok → s.stage.Served st₁ c (s.calls c).timestep (s.calls c).bbox v)
    (h : Sectioned (s.withStage st₁) c st pc) : Sectioned s c st pc where
  pruned := hpruned.trans h.pruned
  served := by
    intro hok
    obtain ⟨v', hserved', hret⟩ := h.served (hserved hok).ok
    exact ⟨v', hserved'.after (hserved hok).keeps, hret⟩

/-- The loop body ends in a return, or nothing failed and the call waits. -/
def WaitEnd (s : PrefetchRun) (c : Nat) (st : Stage) (pc : ReadPc) : Prop :=
  (∃ status out, pc = .returned status out) ∨
  (pc = .waiting false ∧ st = s.stage ∧
    s.stage.queue.failed.lookup (s.calls c).timestep = none ∧ s.stage.queue.cancelled = false)

/-- The whole loop body may also end with a stale buffer dropped; if it waits, nothing was
staged. -/
def LoopEnd (s : PrefetchRun) (c : Nat) (st : Stage) (pc : ReadPc) : Prop :=
  (pc = .scheduling (s.calls c).timestep .recheck ∧
    s.stage.queue.completed.lookup (s.calls c).timestep ≠ none ∧
    st.queue.completed.lookup (s.calls c).timestep = none) ∨
  (WaitEnd s c st pc ∧ ((∃ status out, pc = .returned status out) ∨
    s.stage.queue.completed.lookup (s.calls c).timestep = none))

/-- `get_buffer` gets to its loop unless it returns or has to schedule the fetch. -/
def FirstEnd (s : PrefetchRun) (c : Nat) (pc : ReadPc) : Prop :=
  (∃ status out, pc = .returned status out) ∨
  pc = .scheduling (s.calls c).timestep .loop ∨
  (pc = .waiting false ∧ (s.calls c).timestep ∈ s.stage.queue.pending)

/-- **The end of the loop body.** -/
theorem waitSection_spec (s : PrefetchRun) (c : Nat) :
    ∃ st pc, s.waitSection c = (s.withStage st).goto c pc ∧ Sectioned s c st pc ∧
      WaitEnd s c st pc := by
  have hpruned := Stage.Pruned.waitCheck s.stage (s.calls c).timestep
  have hserved := fun hok : s.stage.Ok =>
    Stage.Served.waitCheck hok c (s.calls c).timestep (s.calls c).bbox
  unfold waitSection
  -- an error, a cancel, or neither: only then the call goes on waiting
  obtain ⟨err, -, hv⟩ | ⟨-, -, heq⟩ | ⟨hfailed, hlive, heq⟩ :=
    Stage.waitCheck_cases s.stage (s.calls c).timestep
  · rcases hcheck : s.stage.waitCheck (s.calls c).timestep with ⟨v, st⟩
    rw [hcheck] at hv hpruned hserved
    obtain rfl : v = .ret err none := hv
    refine ⟨st, _, rfl, ⟨hpruned, fun hok => ⟨_, hserved hok, ?_⟩⟩, .inl ⟨_, _, rfl⟩⟩
    rintro status out ⟨⟩
    rfl
  · rw [heq] at hpruned hserved ⊢
    refine ⟨s.stage, _, rfl, ⟨hpruned, fun hok => ⟨_, hserved hok, ?_⟩⟩, .inl ⟨_, _, rfl⟩⟩
    rintro status out ⟨⟩
    rfl
  · rw [heq] at hpruned hserved ⊢
    exact ⟨s.stage, _, rfl, ⟨hpruned, fun hok => ⟨_, hserved hok, nofun⟩⟩,
      .inr ⟨rfl, rfl, hfailed, hlive⟩⟩

/-- **The loop body.** -/
theorem loopSection_spec (s : PrefetchRun) (c : Nat) :
    ∃ st pc, s.loopSection c = (s.withStage st).goto c pc ∧ Sectioned s c st pc ∧
      LoopEnd s c st pc := by
  have hpruned := Stage.Pruned.loopCheck s.stage c (s.calls c).timestep (s.calls c).bbox
  have hserved := fun hok : s.stage.Ok =>
    Stage.Served.loopCheck hok c (s.calls c).timestep (s.calls c).bbox
  unfold loopSection
  obtain ⟨i, -, -, hv⟩ | ⟨i, hi, -, hnone, hv⟩ | ⟨hnone, heq⟩ :=
    Stage.loopCheck_cases s.stage c (s.calls c).timestep (s.calls c).bbox
  · rcases hcheck : s.stage.loopCheck c (s.calls c).timestep (s.calls c).bbox with ⟨v, st⟩
    rw [hcheck] at hv hpruned hserved
    obtain rfl : v = .ret .ok (some i) := hv
    refine ⟨st, _, rfl, ⟨hpruned, fun hok => ⟨_, hserved hok, ?_⟩⟩,
      .inr ⟨.inl ⟨_, _, rfl⟩, .inl ⟨_, _, rfl⟩⟩⟩
    rintro status out ⟨⟩
    rfl
  · rcases hcheck : s.stage.loopCheck c (s.calls c).timestep (s.calls c).bbox with ⟨v, st⟩
    rw [hcheck] at hv hnone hpruned hserved
    obtain rfl : v = .unlock := hv
    exact ⟨st, _, rfl, ⟨hpruned, fun hok => ⟨_, hserved hok, nofun⟩⟩,
      .inl ⟨rfl, by rw [hi]; simp, hnone⟩⟩
  -- nothing is staged, so the body goes on to its second half
  · rw [heq]
    obtain ⟨st, pc, hwait, hsec, hpc⟩ := waitSection_spec s c
    exact ⟨st, pc, hwait, hsec, .inr ⟨hpc, .inr hnone⟩⟩

/-- **`get_buffer` from its first look on.** -/
theorem firstSection_spec (s : PrefetchRun) (c : Nat) :
    ∃ st pc, s.firstSection c = (s.withStage st).goto c pc ∧ Sectioned s c st pc ∧
      FirstEnd s c pc := by
  have hpruned := Stage.Pruned.firstCheck s.stage c (s.calls c).timestep (s.calls c).bbox
  have hserved := fun hok : s.stage.Ok =>
    Stage.Served.firstCheck hok c (s.calls c).timestep (s.calls c).bbox
  unfold firstSection
  rcases hcheck : s.stage.firstCheck c (s.calls c).timestep (s.calls c).bbox with ⟨v, st⟩
  have hcases := Stage.firstCheck_cases s.stage c (s.calls c).timestep (s.calls c).bbox
  rw [hcheck] at hpruned hserved hcases
  obtain ⟨err, -, hv⟩ | ⟨-, i, hv⟩ | ⟨-, hnone, hv⟩ := hcases
  -- an error is recorded
  · obtain rfl : v = .ret err none := hv
    refine ⟨st, _, rfl, ⟨hpruned, fun hok => ⟨_, hserved hok, ?_⟩⟩, .inl ⟨_, _, rfl⟩⟩
    rintro status out ⟨⟩
    rfl
  -- a buffer is staged that matches
  · obtain rfl : v = .ret .ok (some i) := hv
    refine ⟨st, _, rfl, ⟨hpruned, fun hok => ⟨_, hserved hok, ?_⟩⟩, .inl ⟨_, _, rfl⟩⟩
    rintro status out ⟨⟩
    rfl
  · by_cases hpending : (s.calls c).timestep ∈ s.stage.queue.pending
    · -- a fetch is pending: on into the loop under the same lock, where nothing is staged now
      rw [if_pos hpending] at hv
      obtain rfl : v = .proceed := hv
      obtain ⟨st', pc, hloop, hsec, hpc⟩ := loopSection_spec (s.withStage st) c
      refine ⟨st', pc, hloop, hsec.after hpruned hserved, ?_⟩
      rcases hpc with ⟨-, hsome, -⟩ | ⟨hret | ⟨hwait, -⟩, -⟩
      · exact absurd hnone hsome
      · exact .inl hret
      · exact .inr (.inr ⟨hwait, hpending⟩)
    · rw [if_neg hpending] at hv
      obtain rfl : v = .unlock := hv
      exact ⟨st, _, rfl, ⟨hpruned, fun hok => ⟨_, hserved hok, nofun⟩⟩, .inr (.inl rfl)⟩

/-! ### The steps of a call -/

/-- What the next critical section of call `c` can do: the stage it leaves, and where it goes. -/
inductive CallMove (s : PrefetchRun) (c : Nat) : Stage → ReadPc → Prop
  | enter {st : Stage} {pc : ReadPc} (at_ : (s.calls c).pc = .entering)
      (kind : (s.calls c).kind = .getBuffer) (kicked : s.stage.queue.kickedOff = true)
      (sec : Sectioned (s.latch (s.calls c).bbox) c st pc)
      (ends : FirstEnd (s.latch (s.calls c).bbox) c pc) : CallMove s c st pc
  | first {st : Stage} {pc : ReadPc} (at_ : (s.calls c).pc = .checking)
      (sec : Sectioned s c st pc) (ends : FirstEnd s c pc) : CallMove s c st pc
  | loop {st : Stage} {pc : ReadPc}
      (at_ : (s.calls c).pc = .looping ∨ ∃ notified, (s.calls c).pc = .waiting notified)
      (sec : Sectioned s c st pc) (ends : LoopEnd s c st pc) : CallMove s c st pc
  | recheck {st : Stage} {pc : ReadPc} (at_ : (s.calls c).pc = .rechecking)
      (sec : Sectioned s c st pc) (ends : WaitEnd s c st pc) : CallMove s c st pc
  | kick (at_ : (s.calls c).pc = .entering) (kind : (s.calls c).kind = .getBuffer) :
      CallMove s c (s.latch (s.calls c).bbox).markKickedOff.stage (s.windowPc c 0)
  | next (at_ : (s.calls c).pc = .entering) (kind : (s.calls c).kind = .scheduleNext) {pc : ReadPc}
      (ends : pc = .returned .ok none ∨
        pc = .scheduling (s.stage.queue.nextTimestep (s.calls c).timestep) .done) :
      CallMove s c s.stage pc
  | initial (at_ : (s.calls c).pc = .entering) (kind : (s.calls c).kind = .scheduleInitial) :
      CallMove s c s.markKickedOff.stage (s.windowPc c 0)
  | track {t : Int} {next : After} (at_ : (s.calls c).pc = .scheduling t next)
      (live : s.stage.queue.cancelled = false) (fresh : s.stage.queue.tracked t = false) :
      CallMove s c
        (s.stage.withQueue { s.stage.queue with pending := insert t s.stage.queue.pending })
        (.submitting t s.stage.queue.latchedBbox next)
  | skip {t : Int} {next : After} (at_ : (s.calls c).pc = .scheduling t next)
      (why : s.stage.queue.cancelled = true ∨ s.stage.queue.tracked t = true) :
      CallMove s c s.stage (s.resume c next)

/-- **The steps of a call**: every critical section is one of these. -/
theorem callStep_cases (h : s.callStep c = some s') :
    ∃ st pc, s' = (s.withStage st).goto c pc ∧ CallMove s c st pc := by
  unfold callStep at h
  split at h
  -- the call has just entered
  · next hpc =>
    obtain rfl := Option.some.inj h
    unfold enterSection
    cases hkind : (s.calls c).kind with
    | getBuffer =>
      simp only [hkind]
      split
      · next hkicked =>
        obtain ⟨st, pc, heq, hsec, hends⟩ := firstSection_spec (s.latch (s.calls c).bbox) c
        exact ⟨st, pc, heq, .enter hpc hkind hkicked hsec hends⟩
      · exact ⟨_, _, rfl, .kick hpc hkind⟩
    | scheduleNext =>
      simp only [hkind]
      refine ⟨s.stage, _, rfl, .next hpc hkind ?_⟩
      split
      · exact .inl rfl
      · exact .inr rfl
    | scheduleInitial =>
      simp only [hkind]
      exact ⟨s.markKickedOff.stage, _, rfl, .initial hpc hkind⟩
  -- `schedule_fetch`
  · next t next hpc =>
    obtain rfl := Option.some.inj h
    unfold trackSection PrefetchQueue.track
    by_cases hskip : s.stage.queue.cancelled = true ∨ s.stage.queue.tracked t = true
    · rw [if_pos (by simpa using hskip)]
      exact ⟨s.stage, _, rfl, .skip hpc hskip⟩
    · rw [if_neg (by simpa using hskip)]
      simp only [not_or, Bool.not_eq_true] at hskip
      exact ⟨_, _, rfl, .track hpc hskip.1 hskip.2⟩
  -- back in `get_buffer`: the first look, the loop, and the second half of its body
  · next hpc =>
    obtain rfl := Option.some.inj h
    obtain ⟨st, pc, heq, hsec, hends⟩ := firstSection_spec s c
    exact ⟨st, pc, heq, .first hpc hsec hends⟩
  · next hpc =>
    obtain rfl := Option.some.inj h
    obtain ⟨st, pc, heq, hsec, hends⟩ := loopSection_spec s c
    exact ⟨st, pc, heq, .loop (.inl hpc) hsec hends⟩
  · next hpc =>
    obtain rfl := Option.some.inj h
    obtain ⟨st, pc, heq, hsec, hends⟩ := waitSection_spec s c
    exact ⟨st, pc, heq, .recheck hpc hsec hends⟩
  · next notified hpc =>
    obtain rfl := Option.some.inj h
    obtain ⟨st, pc, heq, hsec, hends⟩ := loopSection_spec s c
    exact ⟨st, pc, heq, .loop (.inr ⟨notified, hpc⟩) hsec hends⟩
  · cases h
  · cases h

/-- No step of a call cancels the queue. -/
theorem CallMove.cancelled (h : CallMove s c st pc) :
    st.queue.cancelled = s.stage.queue.cancelled := by
  cases h with
  | enter at_ kind kicked sec ends => exact sec.pruned.cancelled
  | first at_ sec ends => exact sec.pruned.cancelled
  | loop at_ sec ends => exact sec.pruned.cancelled
  | recheck at_ sec ends => exact sec.pruned.cancelled
  | kick | next | initial | track | skip => rfl

/-- … nor does it stage anything. -/
theorem CallMove.completed (h : CallMove s c st pc)
    (ht : s.stage.queue.completed.lookup t = none) : st.queue.completed.lookup t = none := by
  cases h with
  | enter at_ kind kicked sec ends => exact sec.pruned.completed_none ht
  | first at_ sec ends => exact sec.pruned.completed_none ht
  | loop at_ sec ends => exact sec.pruned.completed_none ht
  | recheck at_ sec ends => exact sec.pruned.completed_none ht
  | kick | next | initial | track | skip => exact ht

/-- … or records a failure. -/
theorem CallMove.failed (h : CallMove s c st pc)
    (ht : s.stage.queue.failed.lookup t = none) : st.queue.failed.lookup t = none := by
  cases h with
  | enter at_ kind kicked sec ends => exact sec.pruned.failed_none ht
  | first at_ sec ends => exact sec.pruned.failed_none ht
  | loop at_ sec ends => exact sec.pruned.failed_none ht
  | recheck at_ sec ends => exact sec.pruned.failed_none ht
  | kick | next | initial | track | skip => exact ht

/-- A call touches no buffer but the one staged for its timestep. -/
theorem CallMove.stage (h : CallMove s c st pc) (hok : s.stage.Ok) :
    st.Ok ∧ s.stage.Keeps st (.staged (s.calls c).timestep) := by
  cases h with
  -- the latch is moved first, then the section looks
  | enter at_ kind kicked sec ends =>
    obtain ⟨hok', hkeep⟩ := hok.requeue { s.stage.queue with
      latchedBbox := (s.calls c).bbox } rfl rfl rfl rfl
    obtain ⟨v, hserved, -⟩ := sec.served hok'
    exact ⟨hserved.ok, (hkeep _).trans hserved.keeps⟩
  | first at_ sec ends | loop at_ sec ends | recheck at_ sec ends =>
    obtain ⟨v, hserved, -⟩ := sec.served hok
    exact ⟨hserved.ok, hserved.keeps⟩
  | kick at_ kind =>
    obtain ⟨hok', hkeep⟩ := hok.requeue { s.stage.queue with
      latchedBbox := (s.calls c).bbox, kickedOff := true } rfl rfl rfl rfl
    exact ⟨hok', hkeep _⟩
  | initial at_ kind =>
    obtain ⟨hok', hkeep⟩ := hok.requeue { s.stage.queue with kickedOff := true } rfl rfl rfl rfl
    exact ⟨hok', hkeep _⟩
  | @track t next at_ live fresh =>
    obtain ⟨hok', hkeep⟩ := hok.requeue { s.stage.queue with
      pending := insert t s.stage.queue.pending } rfl rfl rfl rfl
    exact ⟨hok', hkeep _⟩
  | next | skip => exact ⟨hok, .refl _ _⟩

/-- The kind of a call and its position go together. -/
def Fits (call : ReadCall) : Prop :=
  match call.pc with
  | .scheduling t next | .submitting t _ next =>
    match next with
    -- the window is opened by the first read, or by hand
    | .window _ => call.kind ≠ .scheduleNext
    | .loop | .recheck => call.kind = .getBuffer ∧ t = call.timestep
    | .done => call.kind = .scheduleNext
  | .checking | .looping | .rechecking | .waiting _ => call.kind = .getBuffer
  | .returned status out =>
    -- only `get_buffer` has a buffer to return
    (status = .ok → out = none → call.kind ≠ .getBuffer) ∧ (out ≠ none → call.kind = .getBuffer)
  | .entering => True

theorem fits_windowPc {k : Nat} (h : (s.calls c).kind ≠ .scheduleNext) :
    Fits { s.calls c with pc := s.windowPc c k } := by
  unfold windowPc
  simp only
  split
  · exact h
  · split
    · next hkind => exact hkind
    · next hkind => exact ⟨fun _ _ => hkind, fun h => absurd rfl h⟩

/-- What follows a submission fits. -/
theorem fits_resume {next : After} (sel : Option Bbox)
    (h : Fits (s.calls c)) (hpc : (s.calls c).pc = .scheduling t next ∨
      (s.calls c).pc = .submitting t sel next) :
    Fits { s.calls c with pc := s.resume c next } := by
  unfold Fits at h
  cases next with
  | window k =>
    refine fits_windowPc (k := k + 1) ?_
    rcases hpc with hpc | hpc <;> (rw [hpc] at h; exact h)
  | loop | recheck =>
    rcases hpc with hpc | hpc <;> (rw [hpc] at h; exact h.1)
  | done =>
    have hkind : (s.calls c).kind = .scheduleNext := by
      rcases hpc with hpc | hpc <;> (rw [hpc] at h; exact h)
    exact ⟨fun _ _ => by rw [hkind]; simp, fun h => absurd rfl h⟩

/-- A section of `get_buffer` leaves a call where it fits, if it returns a buffer whenever it
returns `AMIO_OK`. -/
theorem Sectioned.fits (h : Sectioned s c st pc) (hok : s.stage.Ok)
    (hkind : (s.calls c).kind = .getBuffer)
    (hpc : (∃ status out, pc = .returned status out) ∨ pc = .waiting false ∨
      ∃ next, (next = .loop ∨ next = .recheck) ∧ pc = .scheduling (s.calls c).timestep next) :
    Fits { s.calls c with pc := pc } := by
  rcases hpc with ⟨status, out, rfl⟩ | rfl | ⟨next, hnext, rfl⟩
  -- a return of `AMIO_OK` without a buffer would contradict `Served.returns`
  · obtain ⟨v, hserved, hret⟩ := h.served hok
    refine ⟨?_, fun _ => hkind⟩
    rintro rfl rfl
    obtain ⟨i, hi, -⟩ := hserved.returns none (hret .ok none rfl)
    cases hi
  · exact hkind
  · rcases hnext with rfl | rfl <;> exact ⟨hkind, rfl⟩

/-- The call of a move still fits. -/
theorem CallMove.fits (h : CallMove s c st pc) (hok : s.stage.Ok) (hfits : Fits (s.calls c)) :
    Fits { s.calls c with pc := pc } := by
  have hfirst : ∀ {pc : ReadPc}, FirstEnd s c pc → (∃ status out, pc = .returned status out) ∨
      pc = .waiting false ∨
      ∃ next, (next = .loop ∨ next = .recheck) ∧ pc = .scheduling (s.calls c).timestep next := by
    rintro pc (hret | hpc | ⟨hpc, -⟩)
    · exact .inl hret
    · exact .inr (.inr ⟨.loop, .inl rfl, hpc⟩)
    · exact .inr (.inl hpc)
  have hwait : ∀ {st : Stage} {pc : ReadPc}, WaitEnd s c st pc →
      (∃ status out, pc = .returned status out) ∨ pc = .waiting false := by
    rintro st pc (hret | ⟨hpc, -⟩)
    · exact .inl hret
    · exact .inr hpc
  -- the position that follows is one of the function that the call runs
  cases h with
  | enter at_ kind kicked sec ends =>
    exact sec.fits (hok.withQueue rfl rfl rfl hok.errors) kind (hfirst ends)
  | first at_ sec ends =>
    have hkind : (s.calls c).kind = .getBuffer := by rw [Fits, at_] at hfits; exact hfits
    exact sec.fits hok hkind (hfirst ends)
  | loop at_ sec ends =>
    have hkind : (s.calls c).kind = .getBuffer := by
      rcases at_ with at_ | ⟨_, at_⟩ <;> (rw [Fits, at_] at hfits; exact hfits)
    refine sec.fits hok hkind ?_
    rcases ends with ⟨hpc, -⟩ | ⟨ends, -⟩
    · exact .inr (.inr ⟨.recheck, .inr rfl, hpc⟩)
    · exact (hwait ends).imp_right .inl
  | recheck at_ sec ends =>
    have hkind : (s.calls c).kind = .getBuffer := by rw [Fits, at_] at hfits; exact hfits
    exact sec.fits hok hkind ((hwait ends).imp_right .inl)
  | kick at_ kind => exact fits_windowPc (by rw [kind]; simp)
  | next at_ kind ends =>
    rcases ends with rfl | rfl
    · exact ⟨fun _ _ => by rw [kind]; simp, fun h => absurd rfl h⟩
    · exact kind
  | initial at_ kind => exact fits_windowPc (by rw [kind]; simp)
  | track at_ => rw [Fits, at_] at hfits; exact hfits
  | skip at_ => exact fits_resume none hfits (.inl at_)

/-! ### The steps of a fetch -/

/-- What the next access of fetch `f` can do: the stage it leaves, where it goes, and whether it
issues a `notify_all`. -/
inductive FetchMove (s : PrefetchRun) (f : Nat) : Stage → FetchPhase → Bool → Prop
  | started (at_ : (s.fetches f).phase = .queued) (live : s.stage.queue.cancelled = false) :
      FetchMove s f s.stage .started false
  | dropped (at_ : (s.fetches f).phase = .queued) (cancelled : s.stage.queue.cancelled = true) :
      FetchMove s f
        (s.stage.withQueue
          { s.stage.queue with pending := s.stage.queue.pending.erase (s.fetches f).timestep })
        .finished false
  | got {r buf : Nat} {alloc : Bool} {p' : StagingPool}
      (at_ : (s.fetches f).phase = .started ∨ (s.fetches f).phase = .blocked)
      (ha : s.stage.pool.acquireOnce r alloc = (.got buf, p') ∨
        s.stage.pool.acquireFinal r alloc = (.got buf, p')) :
      FetchMove s f (s.stage.acquired p' buf (.fetch f)) (.acquired buf) false
  | refused {r : Nat} {alloc : Bool} {res : StagingPool.Acquired} {p' : StagingPool}
      {phase : FetchPhase}
      (at_ : (s.fetches f).phase = .started ∨ (s.fetches f).phase = .blocked)
      (ha : s.stage.pool.acquireOnce r alloc = (res, p') ∨
        s.stage.pool.acquireFinal r alloc = (res, p'))
      (ends : (res = .threw ∧ phase = .lost) ∨
        (res = .blocked ∧ (phase = .blocked ∨ phase = .denied))) :
      FetchMove s f (s.stage.withPool p') phase false
  | answered {buf : Nat} (at_ : (s.fetches f).phase = .acquired buf) (payload : List UInt8) :
      FetchMove s f
        (s.stage.deliver buf
          (s.stage.queue.driverRead (s.fetches f).timestep (s.fetches f).sel payload))
        (.filled buf) false
  | threw {buf : Nat} (at_ : (s.fetches f).phase = .acquired buf) :
      FetchMove s f s.stage (.threw buf) false
  | released {buf : Nat}
      (at_ : (s.fetches f).phase = .filled buf ∨ (s.fetches f).phase = .threw buf) :
      FetchMove s f (s.stage.release buf) .emptied false
  | completed {buf : Nat} (at_ : (s.fetches f).phase = .filled buf)
      (fits : s.stage.overCapacity buf = false) :
      FetchMove s f (s.stage.complete (s.fetches f).timestep buf (s.fetches f).sel) .finished true
  | failed {err : AmioErr} (err_ne : err ≠ .ok)
      (at_ : (s.fetches f).phase = .emptied ∨ (s.fetches f).phase = .denied) :
      FetchMove s f (s.stage.fail (s.fetches f).timestep err) .finished true

/-- Notify, or not. -/
def notifyIf (s : PrefetchRun) (notify : Bool) : PrefetchRun := if notify then s.notifyAll else s

/-- What an attempt to acquire leads to. -/
theorem afterAcquire_cases {r : Nat} {alloc : Bool} {onBlocked : FetchPhase}
    {res : StagingPool.Acquired × StagingPool}
    (at_ : (s.fetches f).phase = .started ∨ (s.fetches f).phase = .blocked)
    (hblocked : onBlocked = .blocked ∨ onBlocked = .denied)
    (ha : s.stage.pool.acquireOnce r alloc = res ∨ s.stage.pool.acquireFinal r alloc = res) :
    ∃ st phase, s.afterAcquire f onBlocked res = (s.withStage st).setPhase f phase ∧
      FetchMove s f st phase false := by
  obtain ⟨res, p'⟩ := res
  cases res with
  | got buf => exact ⟨_, _, rfl, .got at_ ha⟩
  | threw => exact ⟨_, _, rfl, .refused at_ ha (.inl ⟨rfl, rfl⟩)⟩
  | blocked => exact ⟨_, _, rfl, .refused at_ ha (.inr ⟨rfl, hblocked⟩)⟩

/-- **The steps of a fetch.** -/
theorem fetchStep_cases {op : FetchOp} (h : s.fetchStep f op = some s') :
    ∃ st phase notify, s' = ((s.withStage st).setPhase f phase).notifyIf notify ∧
      FetchMove s f st phase notify := by
  unfold fetchStep at h
  simp only at h
  split at h
  -- the task looks at `cancelled_` before anything else
  · next hphase =>
    unfold PrefetchQueue.startFetch at h
    by_cases hc : s.stage.queue.cancelled = true
    · rw [if_pos hc] at h
      obtain rfl := Option.some.inj h
      exact ⟨_, _, false, rfl, .dropped hphase hc⟩
    · rw [if_neg hc] at h
      obtain rfl := Option.some.inj h
      exact ⟨s.stage, _, false, rfl, .started hphase (by simpa using hc)⟩
  -- the three attempts to acquire
  · next alloc hphase =>
    obtain rfl := Option.some.inj h
    obtain ⟨st, phase, heq, hmove⟩ := afterAcquire_cases (.inl hphase) (.inl rfl) (.inl rfl)
    exact ⟨st, phase, false, heq, hmove⟩
  · next alloc hphase =>
    obtain rfl := Option.some.inj h
    obtain ⟨st, phase, heq, hmove⟩ := afterAcquire_cases (.inr hphase) (.inl rfl) (.inl rfl)
    exact ⟨st, phase, false, heq, hmove⟩
  · next alloc hphase =>
    obtain rfl := Option.some.inj h
    obtain ⟨st, phase, heq, hmove⟩ := afterAcquire_cases (.inr hphase) (.inr rfl) (.inr rfl)
    exact ⟨st, phase, false, heq, hmove⟩
  -- the driver answers, or throws
  · next payload buf hphase =>
    obtain rfl := Option.some.inj h
    exact ⟨_, _, false, rfl, .answered hphase payload⟩
  · next buf hphase =>
    obtain rfl := Option.some.inj h
    exact ⟨s.stage, _, false, rfl, .threw hphase⟩
  · next buf hphase =>
    split at h
    · obtain rfl := Option.some.inj h
      exact ⟨_, _, false, rfl, .released (.inl hphase)⟩
    · next hfits =>
      obtain rfl := Option.some.inj h
      exact ⟨_, _, true, rfl, .completed hphase (by simpa using hfits)⟩
  · next buf hphase =>
    obtain rfl := Option.some.inj h
    exact ⟨_, _, false, rfl, .released (.inr hphase)⟩
  · next hphase =>
    obtain rfl := Option.some.inj h
    exact ⟨_, _, true, rfl, .failed (by simp) (.inl hphase)⟩
  · next hphase =>
    obtain rfl := Option.some.inj h
    exact ⟨_, _, true, rfl, .failed (by simp) (.inr hphase)⟩
  · cases h

/-- Unless an allocation fails while a fetch acquires its buffer, the fetch is not lost. -/
theorem fetchStep_kept {op : FetchOp}
    (hacquire : ∀ alloc, op = .acquire alloc →
      (s.stage.pool.acquireOnce (s.requestedBytes f) alloc).1 ≠ .threw)
    (hgiveUp : ∀ alloc, op = .giveUp alloc →
      (s.stage.pool.acquireFinal (s.requestedBytes f) alloc).1 ≠ .threw)
    (h : s.fetchStep f op = some s') : (s'.fetches f).phase ≠ .lost := by
  -- after an acquire that does not throw
  have hafter : ∀ {res : StagingPool.Acquired × StagingPool} {onBlocked : FetchPhase},
      res.1 ≠ .threw → onBlocked ≠ .lost →
      ((s.afterAcquire f onBlocked res).fetches f).phase ≠ .lost := by
    rintro ⟨res, p⟩ onBlocked hne hblocked
    cases res with
    | got buf => simp [afterAcquire, PrefetchRun.setPhase]
    | threw => exact absurd rfl hne
    | blocked => simpa [afterAcquire, PrefetchRun.setPhase] using hblocked
  unfold fetchStep at h
  simp only at h
  split at h
  · split at h
    all_goals
      obtain rfl := Option.some.inj h
      simp [PrefetchRun.setPhase]
  · obtain rfl := Option.some.inj h
    exact hafter (hacquire _ rfl) nofun
  · obtain rfl := Option.some.inj h
    exact hafter (hacquire _ rfl) nofun
  · obtain rfl := Option.some.inj h
    exact hafter (hgiveUp _ rfl) nofun
  · obtain rfl := Option.some.inj h
    simp [PrefetchRun.setPhase]
  · obtain rfl := Option.some.inj h
    simp [PrefetchRun.setPhase]
  · split at h
    all_goals
      obtain rfl := Option.some.inj h
      simp [PrefetchRun.setPhase, notifyAll]
  · obtain rfl := Option.some.inj h
    simp [PrefetchRun.setPhase]
  · obtain rfl := Option.some.inj h
    simp [PrefetchRun.setPhase, notifyAll]
  · obtain rfl := Option.some.inj h
    simp [PrefetchRun.setPhase, notifyAll]
  · cases h

/-- A fetch that has its answer, or has been denied a buffer, can only be marked. -/
theorem fetchStep_mark {op : FetchOp}
    (hphase : (∃ buf, (s.fetches f).phase = .filled buf) ∨ (s.fetches f).phase = .emptied ∨
      (s.fetches f).phase = .denied) (h : s.fetchStep f op = some s') : op = .mark := by
  cases op with
  | mark => rfl
  | start | acquire | giveUp =>
    rcases hphase with ⟨buf, hphase⟩ | hphase | hphase <;> simp [fetchStep, hphase] at h
  | read payload =>
    rcases hphase with ⟨buf, hphase⟩ | hphase | hphase <;>
      cases payload <;> simp [fetchStep, hphase] at h

/-! ### The steps of the queue

What a step can be, one rule for each: the step function is taken apart only here, and what a step
does to calls, fetches and buffers is then read off the rules. -/

theorem submitStep_cases {lost : Bool} (h : s.submitStep c lost = some s') :
    ∃ t sel next, (s.calls c).pc = .submitting t sel next ∧
      (lost = true → s.workersDown = true) ∧
      s' = { s.goto c (s.resume c next) with
        nfetches := s.nfetches + 1
        fetches := Function.update s.fetches s.nfetches
          ⟨t, sel, if lost then .lost else .queued⟩ } := by
  unfold submitStep at h
  split at h
  · next t sel next hpc =>
    split at h
    · cases h
    · next hlost =>
      exact ⟨t, sel, next, hpc, by simpa using hlost, (Option.some.inj h).symm⟩
  · cases h

theorem expireStep_cases (h : s.expireStep c = some s') :
    ∃ notified status out st, (s.calls c).pc = .waiting notified ∧
      s.stage.lastCheck c (s.calls c).timestep = (.ret status out, st) ∧
      s' = (s.withStage st).goto c (.returned status out) := by
  unfold expireStep at h
  split at h
  · next notified hpc =>
    split at h
    · next status out st hlast =>
      exact ⟨notified, status, out, st, hpc, hlast, (Option.some.inj h).symm⟩
    · cases h
  · cases h

/-- What the release of a buffer does. -/
theorem releaseStep_cases (h : s.releaseStep c = some s') :
    ∃ buf, (s.calls c).pc = .returned .ok (some buf) ∧ (s.calls c).released = false ∧
      s' = { s.withStage (s.stage.release buf) with
        calls := Function.update s.calls c { s.calls c with released := true } } := by
  unfold releaseStep at h
  split at h
  · next buf hpc hreleased => exact ⟨buf, hpc, hreleased, (Option.some.inj h).symm⟩
  · cases h

/-- The other users of the pool have nothing to do with the queue. -/
theorem otherStep_queue {use : PoolUse} (h : s.otherStep use = some s') :
    ∃ st, s' = s.withStage st ∧ st.queue = s.stage.queue := by
  cases use with
  | acquire r alloc final =>
    simp only [otherStep] at h
    split at h
    · exact ⟨_, (Option.some.inj h).symm, rfl⟩
    · exact ⟨_, (Option.some.inj h).symm, rfl⟩
  | release buf | fill buf bytes =>
    simp only [otherStep, Option.ite_none_right_eq_some] at h
    exact ⟨_, (Option.some.inj h.2).symm, rfl⟩

inductive Step (s : PrefetchRun) : ReadOp → PrefetchRun → Prop
  | begins (kind : ReadKind) (t : Int) (bbox : Option Bbox) :
      Step s (.begin kind t bbox) (s.beginCall kind t bbox)
  | calls {c : Nat} {s' : PrefetchRun} (lt : c < s.ncalls) (ran : s.callStep c = some s') :
      Step s (.call c) s'
  | submits {c : Nat} {lost : Bool} {s' : PrefetchRun} (lt : c < s.ncalls)
      (ran : s.submitStep c lost = some s') : Step s (.submit c lost) s'
  | expires {c : Nat} {s' : PrefetchRun} (lt : c < s.ncalls) (ran : s.expireStep c = some s') :
      Step s (.expire c) s'
  | fetches {f : Nat} {fop : FetchOp} {s' : PrefetchRun} (lt : f < s.nfetches)
      (ran : s.fetchStep f fop = some s') : Step s (.fetch f fop) s'
  | releases {c : Nat} {s' : PrefetchRun} (lt : c < s.ncalls) (ran : s.releaseStep c = some s') :
      Step s (.release c) s'
  | cancels : Step s .cancel (s.withStage s.stage.cancelPending).notifyAll
  | shuts : Step s .shutdown { s with workersDown := true }
  | others {use : PoolUse} {s' : PrefetchRun} (ran : s.otherStep use = some s') :
      Step s (.other use) s'

/-- **What a step of the queue can be.** -/
theorem step_cases {op : ReadOp} (h : s.step op = some s') : Step s op s' := by
  cases op with
  | begin kind t bbox =>
    obtain rfl := Option.some.inj h
    exact .begins kind t bbox
  | cancel =>
    obtain rfl := Option.some.inj h
    exact .cancels
  | shutdown =>
    obtain rfl := Option.some.inj h
    exact .shuts
  | other use => exact .others h
  | call | submit | expire | fetch | release =>
    simp only [PrefetchRun.step, Option.ite_none_right_eq_some] at h
    constructor
    · exact h.1
    · exact h.2

end PrefetchRun

end Amio
