import Amio.Prefetch.Sections

/-!
# The books of the prefetch queue

`pending_` is filled by `schedule_fetch` on one thread and emptied by `sync_fetch` on another, with
a hand-over to the worker pool in between. `Works` says who is at work on a timestep at each moment,
and `Books` that the maps agree with it: until the queue is cancelled `pending_` holds exactly the
timesteps somebody works on, nobody works on a timestep that has a result, and no two work on the
same one. This holds in every run (`Books.of_reachable`); a fetch that is lost goes on counting as
work, which is how its timestep stays in `pending_`.
-/

namespace Amio

namespace PrefetchRun

variable {s s' : PrefetchRun} {c c' f f' : Nat} {t t' : Int} {st : Stage} {pc : ReadPc}

/-! ### Who is at work -/

/-- Who is fetching a timestep: a call that has inserted it into `pending_` and not yet submitted
the fetch, or the fetch. -/
inductive Fetcher
  | call (c : Nat)
  | fetch (f : Nat)
  deriving DecidableEq

def Works (s : PrefetchRun) (t : Int) : Fetcher → Prop
  | .call c => ∃ sel next, (s.calls c).pc = .submitting t sel next
  | .fetch f => (s.fetches f).timestep = t ∧ (s.fetches f).phase ≠ .finished

/-- A call that schedules nothing. -/
theorem works_goto (st : Stage) (hold : ∀ t sel next, (s.calls c).pc ≠ .submitting t sel next)
    (hnew : ∀ t sel next, pc ≠ .submitting t sel next) (t : Int) (x : Fetcher) :
    Works ((s.withStage st).goto c pc) t x ↔ Works s t x := by
  cases x with
  | fetch f => exact Iff.rfl
  | call c' =>
    by_cases hc : c' = c
    · subst hc
      simp only [Works, goto_calls_self]
      constructor
      · rintro ⟨sel, next, h⟩
        exact absurd h (hnew t sel next)
      · rintro ⟨sel, next, h⟩
        exact absurd h (hold t sel next)
    · simp only [Works, goto_calls_of_ne _ _ hc]
      exact Iff.rfl

/-- The section of `schedule_fetch` that inserts a timestep puts its call to work. -/
theorem works_track {next : After} {sel : Option Bbox}
    (hpc : (s.calls c).pc = .scheduling t next) (t' : Int) (x : Fetcher) :
    Works ((s.withStage st).goto c (.submitting t sel next)) t' x ↔
      (t' = t ∧ x = .call c) ∨ Works s t' x := by
  cases x with
  -- the fetches do what they did
  | fetch f =>
    constructor
    · exact .inr
    · rintro (⟨-, h⟩ | h)
      · cases h
      · exact h
  | call c' =>
    -- the call itself, which was not submitting before, or another call
    by_cases h : c' = c
    · subst h
      simp only [Works, goto_calls_self]
      constructor
      · rintro ⟨sel', next', hsub⟩
        cases hsub
        exact .inl ⟨rfl, trivial⟩
      · rintro (⟨rfl, -⟩ | ⟨sel', next', hsub⟩)
        · exact ⟨sel, next, rfl⟩
        · have hsub' : (s.calls c').pc = .submitting t' sel' next' := hsub
          rw [hpc] at hsub'
          cases hsub'
    · simp only [Works, goto_calls_of_ne _ _ h]
      constructor
      · exact .inr
      · rintro (⟨-, hx⟩ | hx)
        · exact absurd (Fetcher.call.inj hx) h
        · exact hx

/-- The window loops neither wait nor refetch. -/
theorem windowPc_cases (s : PrefetchRun) (c k : Nat) :
    (∃ t k', s.windowPc c k = .scheduling t (.window k')) ∨ s.windowPc c k = .checking ∨
      ∃ status out, s.windowPc c k = .returned status out := by
  unfold windowPc
  simp only
  split
  · exact .inl ⟨_, _, rfl⟩
  · split
    · exact .inr (.inl rfl)
    · exact .inr (.inr ⟨_, _, rfl⟩)

/-- The window loops submit nothing by themselves. -/
theorem windowPc_not_submitting {k : Nat} (t : Int) (sel : Option Bbox) (next : After) :
    s.windowPc c k ≠ .submitting t sel next := by
  rcases windowPc_cases s c k with ⟨_, _, h⟩ | h | ⟨_, _, h⟩ <;> (rw [h]; exact nofun)

theorem resume_not_submitting {next : After} (t : Int) (sel : Option Bbox) (next' : After) :
    s.resume c next ≠ .submitting t sel next' := by
  cases next with
  | window k => exact windowPc_not_submitting t sel next'
  | loop | recheck | done => exact nofun

/-- `submit_prefetch` hands the work of the call to the new fetch. -/
theorem works_submit (next : After) (sel : Option Bbox) {phase : FetchPhase}
    (hfetches : (s.fetches s.nfetches).phase = .finished) (hphase : phase ≠ .finished)
    (t' : Int) (x : Fetcher) :
    Works { s.goto c (s.resume c next) with
        nfetches := s.nfetches + 1
        fetches := Function.update s.fetches s.nfetches ⟨t, sel, phase⟩ } t' x ↔
      (t' = t ∧ x = .fetch s.nfetches) ∨ (Works s t' x ∧ x ≠ .call c) := by
  have hnewf : Function.update s.fetches s.nfetches ⟨t, sel, phase⟩ s.nfetches =
      ⟨t, sel, phase⟩ := Function.update_self _ _ _
  cases x with
  | fetch f =>
    -- the new fetch, or an older one
    by_cases hf : f = s.nfetches
    · subst hf
      simp only [Works, hnewf, ne_eq, hphase, not_false_eq_true, and_true, reduceCtorEq]
      constructor
      · exact fun h => .inl h.symm
      · rintro (h | ⟨-, h⟩)
        · exact h.symm
        · exact absurd hfetches h
    · simp only [Works, Function.update_of_ne hf, Fetcher.fetch.injEq, hf, and_false, false_or,
        ne_eq, reduceCtorEq, not_false_eq_true, and_true]
  | call c' =>
    -- the call has handed its work over
    by_cases h : c' = c
    · subst h
      simp only [Works, goto_calls_self, ne_eq, not_true_eq_false, and_false, or_false,
        reduceCtorEq, iff_false]
      rintro ⟨sel', next', hsub⟩
      exact resume_not_submitting t' sel' next' hsub
    · simp only [Works, goto_calls_of_ne _ _ h, reduceCtorEq, and_false, false_or, ne_eq,
        Fetcher.call.injEq, h, not_false_eq_true, and_true]

/-- `notify_all` is not seen by a call that submits. -/
theorem notify_submitting {pc : ReadPc} {t : Int} {sel : Option Bbox} {next : After} :
    pc.notify = .submitting t sel next ↔ pc = .submitting t sel next := by
  cases pc <;> simp [ReadPc.notify]

theorem works_notifyIf (s : PrefetchRun) (notify : Bool) (t : Int) (x : Fetcher) :
    Works (s.notifyIf notify) t x ↔ Works s t x := by
  cases notify with
  | false => exact Iff.rfl
  | true =>
    cases x with
    | call c => simp only [Works, notifyIf, if_true, notifyAll, notify_submitting]
    | fetch f => exact Iff.rfl

/-- A fetch that moves, and no other. -/
theorem fetches_setPhase (s : PrefetchRun) (st : Stage) (f : Nat) (phase : FetchPhase) (f' : Nat) :
    ((s.withStage st).setPhase f phase).fetches f' =
      if f' = f then { s.fetches f with phase := phase } else s.fetches f' := by
  split
  · next h => subst h; exact Function.update_self _ _ _
  · next h => exact Function.update_of_ne h _ _

/-- A fetch that moves stays at work unless it ends. -/
theorem works_setPhase {phase : FetchPhase} (hold : (s.fetches f).phase ≠ .finished) (t : Int)
    (x : Fetcher) : Works ((s.withStage st).setPhase f phase) t x ↔
      Works s t x ∧ (x = .fetch f → phase ≠ .finished) := by
  cases x with
  | call c => simp [Works, PrefetchRun.setPhase, withStage]
  | fetch f' =>
    simp only [Works, fetches_setPhase, Fetcher.fetch.injEq]
    by_cases h : f' = f
    · subst h
      simp [hold]
    · simp [h]

/-! ### The invariant -/

/-- **The books of the queue**: `pending_` holds the timesteps that are being fetched, each by one
fetcher, and they have no result. -/
structure Tracked (s : PrefetchRun) : Prop where
  pending : ∀ t, t ∈ s.stage.queue.pending ↔ ∃ x, Works s t x
  unique : ∀ t x y, Works s t x → Works s t y → x = y
  fresh : ∀ t ∈ s.stage.queue.pending,
    s.stage.queue.completed.lookup t = none ∧ s.stage.queue.failed.lookup t = none

/-- The calls and fetches that have not begun. -/
structure Bounded (s : PrefetchRun) : Prop where
  calls : ∀ c, s.ncalls ≤ c → ∃ status out, (s.calls c).pc = .returned status out
  fetches : ∀ f, s.nfetches ≤ f → (s.fetches f).phase = .finished

/-- What holds of the maps in every state, cancelled or not. -/
structure Books (s : PrefetchRun) : Prop where
  bounded : Bounded s
  unique : ∀ t x y, Works s t x → Works s t y → x = y
  fresh : ∀ t x, Works s t x →
    s.stage.queue.completed.lookup t = none ∧ s.stage.queue.failed.lookup t = none
  pending : ∀ t, t ∈ s.stage.queue.pending ↔ s.stage.queue.cancelled = false ∧ ∃ x, Works s t x

/-- As long as the queue lives, a timestep is worked on exactly when it is pending. -/
theorem Books.tracked (h : Books s) (hlive : s.stage.queue.cancelled = false) : Tracked s where
  pending t := by rw [h.pending, hlive]; simp
  unique := h.unique
  fresh t ht := by
    obtain ⟨-, x, hx⟩ := (h.pending t).mp ht
    exact h.fresh t x hx

/-- A step after which the same fetchers are at work, and no such timestep got a result. -/
theorem Books.of_works (h : Books s) (hbounded : Bounded s')
    (hworks : ∀ t x, Works s' t x ↔ Works s t x)
    (hpending : s'.stage.queue.pending = s.stage.queue.pending)
    (hcancelled : s'.stage.queue.cancelled = s.stage.queue.cancelled)
    (hcompleted : ∀ t, s.stage.queue.completed.lookup t = none →
      s'.stage.queue.completed.lookup t = none)
    (hfailed : ∀ t, s.stage.queue.failed.lookup t = none →
      s'.stage.queue.failed.lookup t = none) : Books s' where
  bounded := hbounded
  unique t x y hx hy := h.unique t x y ((hworks t x).mp hx) ((hworks t y).mp hy)
  fresh t x hx := by
    obtain ⟨hc, hf⟩ := h.fresh t x ((hworks t x).mp hx)
    exact ⟨hcompleted t hc, hfailed t hf⟩
  pending t := by
    rw [hpending, hcancelled, h.pending]
    exact and_congr_right fun _ => exists_congr fun x => (hworks t x).symm

/-- The end of the fetch of `t` by `x`, which leaves `pending_`. -/
theorem Books.finish (h : Books s) (hbounded : Bounded s') {x : Fetcher} (hx : Works s t x)
    (honly : ∀ t', Works s t' x → t' = t)
    (hworks : ∀ t' y, Works s' t' y ↔ Works s t' y ∧ y ≠ x)
    (hpending : s'.stage.queue.pending = s.stage.queue.pending.erase t)
    (hcancelled : s'.stage.queue.cancelled = s.stage.queue.cancelled)
    (hcompleted : ∀ t', t' ≠ t →
      s'.stage.queue.completed.lookup t' = s.stage.queue.completed.lookup t')
    (hfailed : ∀ t', t' ≠ t →
      s'.stage.queue.failed.lookup t' = s.stage.queue.failed.lookup t') : Books s' where
  bounded := hbounded
  unique t' y z hy hz := h.unique t' y z ((hworks t' y).mp hy).1 ((hworks t' z).mp hz).1
  fresh t' y hy := by
    obtain ⟨hy', hne⟩ := (hworks t' y).mp hy
    -- `x` was the only fetcher of its timestep
    have ht : t' ≠ t := by
      rintro rfl
      exact hne (h.unique t' y x hy' hx)
    rw [hcompleted t' ht, hfailed t' ht]
    exact h.fresh t' y hy'
  pending t' := by
    rw [hpending, Finset.mem_erase, h.pending, hcancelled]
    constructor
    · rintro ⟨hne, hlive, y, hy⟩
      refine ⟨hlive, y, (hworks t' y).mpr ⟨hy, ?_⟩⟩
      rintro rfl
      exact hne (honly t' hy)
    · rintro ⟨hlive, y, hy⟩
      obtain ⟨hy', hne⟩ := (hworks t' y).mp hy
      refine ⟨?_, hlive, y, hy'⟩
      rintro rfl
      exact hne (h.unique t' y x hy' hx)

theorem tracked_iff {q : PrefetchQueue} : q.tracked t = true ↔
    t ∈ q.pending ∨ q.completed.lookup t ≠ none ∨ q.failed.lookup t ≠ none := by
  simp [PrefetchQueue.tracked, Option.isSome_iff_ne_none, or_assoc]

/-! ### What has not begun -/

theorem Bounded.start (depth : Nat) (id : UInt64) (name : List UInt8) (info : VariableInfo)
    (a : PoolArgs) : Bounded (start depth id name info a) :=
  ⟨fun _ _ => ⟨_, _, rfl⟩, fun _ _ => rfl⟩

/-- A call that was made moves. -/
theorem Bounded.goto (h : Bounded s) (hc : c < s.ncalls) :
    Bounded ((s.withStage st).goto c pc) where
  calls c' hc' := by
    have hne : c' ≠ c := fun h => absurd hc (Nat.not_lt.mpr (h ▸ hc'))
    rw [goto_calls_of_ne _ _ hne]
    exact h.calls c' hc'
  fetches := h.fetches

/-- A fetch that was made moves. -/
theorem Bounded.setPhase (h : Bounded s) (hf : f < s.nfetches) {phase : FetchPhase} :
    Bounded ((s.withStage st).setPhase f phase) where
  calls := h.calls
  fetches f' hf' := by
    rw [fetches_setPhase, if_neg (Nat.ne_of_gt (Nat.lt_of_lt_of_le hf hf'))]
    exact h.fetches f' hf'

theorem Bounded.notifyIf (h : Bounded s) (notify : Bool) : Bounded (s.notifyIf notify) := by
  cases notify with
  | false => exact h
  | true =>
    refine ⟨fun c hc => ?_, h.fetches⟩
    obtain ⟨status, out, hpc⟩ := h.calls c hc
    exact ⟨status, out, congrArg ReadPc.notify hpc⟩

theorem Bounded.submit (h : Bounded s) (hc : c < s.ncalls) {fetch : Fetch} :
    Bounded { s.goto c pc with
      nfetches := s.nfetches + 1
      fetches := Function.update s.fetches s.nfetches fetch } where
  calls := by
    have hgoto : Bounded ((s.withStage s.stage).goto c pc) := h.goto hc
    exact hgoto.calls
  fetches f hf := by
    have hne : f ≠ s.nfetches := Nat.ne_of_gt hf
    simp only [Function.update_of_ne hne]
    exact h.fetches f (Nat.le_of_succ_le hf)

/-- The invariants that do not read the pool or the ghost maps survive a step that leaves the queue,
the positions and the fetches alone. -/
theorem Books.of_queue (h : Books s) (hqueue : s'.stage.queue = s.stage.queue)
    (hncalls : s'.ncalls = s.ncalls) (hnfetches : s'.nfetches = s.nfetches)
    (hcalls : ∀ c, (s'.calls c).pc = (s.calls c).pc) (hfetches : s'.fetches = s.fetches) :
    Books s' := by
  refine h.of_works ⟨fun c hc => ?_, fun f hf => ?_⟩ ?_ (by rw [hqueue]) (by rw [hqueue]) ?_ ?_
  · rw [hcalls c]
    exact h.bounded.calls c (hncalls ▸ hc)
  · rw [hfetches]
    exact h.bounded.fetches f (hnfetches ▸ hf)
  · intro t x
    cases x with
    | call c => simp only [Works, hcalls c]
    | fetch f => simp only [Works, hfetches]
  · exact fun _ ht => hqueue ▸ ht
  · exact fun _ ht => hqueue ▸ ht

/-! ### The steps -/

theorem Books.start (depth : Nat) (id : UInt64) (name : List UInt8) (info : VariableInfo)
    (a : PoolArgs) : Books (start depth id name info a) := by
  have hidle : ∀ t x, ¬ Works (PrefetchRun.start depth id name info a) t x := by
    rintro t (c | f) hx
    · obtain ⟨_, _, hpc⟩ := hx
      cases hpc
    · exact hx.2 rfl
  refine ⟨.start .., fun t x _ hx => absurd hx (hidle t x), fun t x hx => absurd hx (hidle t x),
    fun t => ⟨nofun, ?_⟩⟩
  rintro ⟨-, x, hx⟩
  exact absurd hx (hidle t x)

/-- A section that may have erased results of one timestep. -/
theorem Books.pruned (h : Books s) (hc : c < s.ncalls) (hp : s.stage.Pruned st t)
    (hold : ∀ t sel next, (s.calls c).pc ≠ .submitting t sel next)
    (hnew : ∀ t sel next, pc ≠ .submitting t sel next) : Books ((s.withStage st).goto c pc) :=
  h.of_works (h.bounded.goto hc) (works_goto st hold hnew) hp.pending hp.cancelled
    (fun _ => hp.completed_none) (fun _ => hp.failed_none)

/-- A call goes elsewhere and the maps stay as they are. -/
theorem Books.idle (h : Books s) (hc : c < s.ncalls)
    (hold : ∀ t sel next, (s.calls c).pc ≠ .submitting t sel next)
    (hnew : ∀ t sel next, pc ≠ .submitting t sel next) (q : PrefetchQueue)
    (hpending : q.pending = s.stage.queue.pending)
    (hcompleted : q.completed = s.stage.queue.completed)
    (hfailed : q.failed = s.stage.queue.failed)
    (hcancelled : q.cancelled = s.stage.queue.cancelled) :
    Books ((s.withStage (s.stage.withQueue q)).goto c pc) :=
  h.of_works (h.bounded.goto hc) (works_goto _ hold hnew) hpending hcancelled
    (fun _ ht => hcompleted ▸ ht) (fun _ ht => hfailed ▸ ht)

/-- The section of `schedule_fetch` that inserts the timestep into `pending_`. -/
theorem Books.track (h : Books s) (hc : c < s.ncalls) {next : After} {sel : Option Bbox}
    (hpc : (s.calls c).pc = .scheduling t next) (hlive : s.stage.queue.cancelled = false)
    (hfresh : s.stage.queue.tracked t = false) :
    Books ((s.withStage (s.stage.withQueue
      { s.stage.queue with pending := insert t s.stage.queue.pending })).goto c
        (.submitting t sel next)) := by
  obtain ⟨hnot, hnone⟩ : t ∉ s.stage.queue.pending ∧ s.stage.queue.completed.lookup t = none ∧
      s.stage.queue.failed.lookup t = none := by
    have := mt tracked_iff.mpr (by rw [hfresh]; simp)
    simpa [not_or] using this
  -- nobody works on a timestep that was not pending
  have hnobody : ∀ z, ¬ Works s t z := fun z hz => hnot ((h.pending t).mpr ⟨hlive, z, hz⟩)
  have hworks : ∀ t' x, Works ((s.withStage (s.stage.withQueue
      { s.stage.queue with pending := insert t s.stage.queue.pending })).goto c
        (.submitting t sel next)) t' x ↔ (t' = t ∧ x = .call c) ∨ Works s t' x := works_track hpc
  refine ⟨h.bounded.goto hc, fun t' x y hx hy => ?_, fun t' x hx => ?_, fun t' => ?_⟩
  · rcases (hworks t' x).mp hx with ⟨rfl, rfl⟩ | hx'
    · rcases (hworks t' y).mp hy with ⟨-, rfl⟩ | hy'
      · rfl
      · exact absurd hy' (hnobody y)
    · rcases (hworks t' y).mp hy with ⟨rfl, -⟩ | hy'
      · exact absurd hx' (hnobody x)
      · exact h.unique t' x y hx' hy'
  · rcases (hworks t' x).mp hx with ⟨rfl, -⟩ | hx'
    · exact hnone
    · exact h.fresh t' x hx'
  · have hmem : t' ∈ insert t s.stage.queue.pending ↔ s.stage.queue.cancelled = false ∧
        ∃ x, (t' = t ∧ x = Fetcher.call c) ∨ Works s t' x := by
      rw [Finset.mem_insert, h.pending]
      constructor
      · rintro (ht | ⟨-, x, hx⟩)
        · exact ⟨hlive, .call c, .inl ⟨ht, rfl⟩⟩
        · exact ⟨hlive, x, .inr hx⟩
      · rintro ⟨-, x, ⟨ht, -⟩ | hx⟩
        · exact .inl ht
        · exact .inr ⟨hlive, x, hx⟩
    exact hmem.trans (and_congr_right fun _ => exists_congr fun x => (hworks t' x).symm)

/-- A step of a call keeps the books. -/
theorem Books.callMove (h : Books s) (hc : c < s.ncalls) (hmove : CallMove s c st pc) :
    Books ((s.withStage st).goto c pc) := by
  have hfirst : ∀ {s₀ : PrefetchRun} {pc : ReadPc}, FirstEnd s₀ c pc →
      ∀ t sel next, pc ≠ .submitting t sel next := by
    rintro s₀ pc (⟨_, _, rfl⟩ | rfl | ⟨rfl, -⟩) <;> exact nofun
  have hwait : ∀ {st : Stage} {pc : ReadPc}, WaitEnd s c st pc →
      ∀ t sel next, pc ≠ .submitting t sel next := by
    rintro st pc (⟨_, _, rfl⟩ | ⟨rfl, -⟩) <;> exact nofun
  -- only `track` puts a timestep in pending, and only it leads to `submit_prefetch`
  cases hmove with
  | enter at_ kind kicked sec ends =>
    have hlatch : Books (s.latch (s.calls c).bbox) :=
      h.of_works ⟨h.bounded.calls, h.bounded.fetches⟩ (fun _ _ => Iff.rfl) rfl rfl
        (fun _ ht => ht) (fun _ ht => ht)
    exact hlatch.pruned hc sec.pruned (fun _ _ _ heq => by cases at_.symm.trans heq) (hfirst ends)
  | first at_ sec ends => exact h.pruned hc sec.pruned (by rw [at_]; exact nofun) (hfirst ends)
  | loop at_ sec ends =>
    refine h.pruned hc sec.pruned ?_ ?_
    · rcases at_ with at_ | ⟨_, at_⟩ <;> (rw [at_]; exact nofun)
    · rcases ends with ⟨rfl, -⟩ | ⟨ends, -⟩
      · exact nofun
      · exact hwait ends
  | recheck at_ sec ends => exact h.pruned hc sec.pruned (by rw [at_]; exact nofun) (hwait ends)
  | kick at_ kind =>
    exact h.idle hc (by rw [at_]; exact nofun) windowPc_not_submitting
      { s.stage.queue with latchedBbox := (s.calls c).bbox, kickedOff := true } rfl rfl rfl rfl
  | next at_ kind ends =>
    refine h.idle hc (by rw [at_]; exact nofun) ?_ s.stage.queue rfl rfl rfl rfl
    rcases ends with rfl | rfl <;> exact nofun
  | initial at_ kind =>
    exact h.idle hc (by rw [at_]; exact nofun) windowPc_not_submitting
      { s.stage.queue with kickedOff := true } rfl rfl rfl rfl
  | track at_ live fresh => exact h.track hc at_ live fresh
  | skip at_ why =>
    exact h.idle hc (by rw [at_]; exact nofun) resume_not_submitting s.stage.queue rfl rfl rfl rfl

/-- `submit_prefetch`, refused or not: the fetch takes over from the call. -/
theorem Books.submitStep (h : Books s) (hc : c < s.ncalls) {lost : Bool}
    (hstep : s.submitStep c lost = some s') : Books s' := by
  obtain ⟨t, sel, next, hpc, -, rfl⟩ := submitStep_cases hstep
  have hphase : (if lost = true then FetchPhase.lost else .queued) ≠ .finished := by
    cases lost <;> exact nofun
  have hcall : Works s t (.call c) := ⟨sel, next, hpc⟩
  -- the call works on its timestep until the fetch does
  have hworks := works_submit (s := s) (c := c) (t := t) next sel
    (h.bounded.fetches _ (Nat.le_refl _)) hphase
  refine ⟨h.bounded.submit hc, fun t' x y hx hy => ?_, fun t' x hx => ?_, fun t' => ?_⟩
  · rcases (hworks t' x).mp hx with ⟨rfl, rfl⟩ | ⟨hx', hxc⟩
    · rcases (hworks t' y).mp hy with ⟨-, rfl⟩ | ⟨hy', hyc⟩
      · rfl
      · exact absurd (h.unique t' y (.call c) hy' hcall) hyc
    · rcases (hworks t' y).mp hy with ⟨rfl, -⟩ | ⟨hy', -⟩
      · exact absurd (h.unique t' x (.call c) hx' hcall) hxc
      · exact h.unique t' x y hx' hy'
  · rcases (hworks t' x).mp hx with ⟨rfl, -⟩ | ⟨hx', -⟩
    · exact h.fresh t' _ hcall
    · exact h.fresh t' x hx'
  · refine (h.pending t').trans (and_congr_right fun _ => ⟨?_, ?_⟩)
    · rintro ⟨x, hx⟩
      by_cases hxc : x = .call c
      · subst hxc
        obtain ⟨sel', next', hpc'⟩ := hx
        rw [hpc] at hpc'
        cases hpc'
        exact ⟨.fetch s.nfetches, (hworks _ _).mpr (.inl ⟨rfl, rfl⟩)⟩
      · exact ⟨x, (hworks t' x).mpr (.inr ⟨hx, hxc⟩)⟩
    · rintro ⟨x, hx⟩
      rcases (hworks t' x).mp hx with ⟨rfl, -⟩ | ⟨hx, -⟩
      · exact ⟨_, hcall⟩
      · exact ⟨x, hx⟩

/-- A fetch moves on without ending, and without a look at the queue. -/
theorem Books.setPhase (h : Books s) (hf : f < s.nfetches) {phase : FetchPhase}
    (hqueue : st.queue = s.stage.queue) (hold : (s.fetches f).phase ≠ .finished)
    (hnew : phase ≠ .finished) : Books ((s.withStage st).setPhase f phase) := by
  refine h.of_works (h.bounded.setPhase hf) (fun t x => ?_) (congrArg _ hqueue)
    (congrArg _ hqueue) ?_ ?_
  · rw [works_setPhase hold]
    exact and_iff_left fun _ => hnew
  · exact fun t ht => (congrArg (fun q => q.completed.lookup t) hqueue).trans ht
  · exact fun t ht => (congrArg (fun q => q.failed.lookup t) hqueue).trans ht

/-- A fetch ends: its timestep leaves `pending_`, and at most that one gets a result. -/
theorem Books.endFetch (h : Books s) (hf : f < s.nfetches)
    (hold : (s.fetches f).phase ≠ .finished)
    (hcancelled : st.queue.cancelled = s.stage.queue.cancelled)
    (hpending : st.queue.pending = s.stage.queue.pending.erase (s.fetches f).timestep)
    (hcompleted : ∀ t, t ≠ (s.fetches f).timestep →
      st.queue.completed.lookup t = s.stage.queue.completed.lookup t)
    (hfailed : ∀ t, t ≠ (s.fetches f).timestep →
      st.queue.failed.lookup t = s.stage.queue.failed.lookup t) :
    Books ((s.withStage st).setPhase f .finished) := by
  refine h.finish (h.bounded.setPhase hf) (x := .fetch f) ⟨rfl, hold⟩ (fun t ht => ht.1.symm) ?_
    hpending hcancelled hcompleted hfailed
  intro t x
  rw [works_setPhase hold]
  exact and_congr_right fun _ => by simp

theorem Books.notifyIf (h : Books s) (notify : Bool) : Books (s.notifyIf notify) := by
  have hstage : (s.notifyIf notify).stage = s.stage := by cases notify <;> rfl
  exact h.of_works (h.bounded.notifyIf notify) (works_notifyIf s notify) (by rw [hstage])
    (by rw [hstage]) (fun _ ht => hstage ▸ ht) (fun _ ht => hstage ▸ ht)

/-- A step of a fetch keeps the books. -/
theorem Books.fetchMove (h : Books s) (hf : f < s.nfetches) {phase : FetchPhase} {notify : Bool}
    (hmove : FetchMove s f st phase notify) : Books ((s.withStage st).setPhase f phase) := by
  cases hmove with
  | started at_ live => exact h.setPhase hf rfl (by rw [at_]; exact nofun) nofun
  -- a fetch that ends gives up its timestep, in the books and in `pending`
  | dropped at_ cancelled =>
    exact h.endFetch hf (by rw [at_]; exact nofun) rfl rfl (fun _ _ => rfl) (fun _ _ => rfl)
  | got at_ ha =>
    exact h.setPhase hf rfl (by rcases at_ with at_ | at_ <;> (rw [at_]; exact nofun)) nofun
  | refused at_ ha ends =>
    refine h.setPhase hf rfl (by rcases at_ with at_ | at_ <;> (rw [at_]; exact nofun)) ?_
    rcases ends with ⟨-, rfl⟩ | ⟨-, rfl | rfl⟩ <;> exact nofun
  | answered at_ payload => exact h.setPhase hf rfl (by rw [at_]; exact nofun) nofun
  | threw at_ => exact h.setPhase hf rfl (by rw [at_]; exact nofun) nofun
  | released at_ =>
    exact h.setPhase hf rfl (by rcases at_ with at_ | at_ <;> (rw [at_]; exact nofun)) nofun
  | completed at_ fits =>
    exact h.endFetch hf (by rw [at_]; exact nofun) rfl rfl
      (fun t ht => (StepMap.lookup_insert _ _ t _).trans (if_neg ht)) (fun _ _ => rfl)
  | failed err_ne at_ =>
    exact h.endFetch hf (by rcases at_ with at_ | at_ <;> (rw [at_]; exact nofun)) rfl rfl
      (fun _ _ => rfl) (fun t ht => (StepMap.lookup_insert _ _ t _).trans (if_neg ht))

/-- A call that begins keeps the books. -/
theorem Books.begin (h : Books s) (kind : ReadKind) (t : Int) (bbox : Option Bbox) :
    Books (s.beginCall kind t bbox) := by
  have hcall : ∀ c, c ≠ s.ncalls → (s.beginCall kind t bbox).calls c = s.calls c :=
    fun c hc => Function.update_of_ne hc _ _
  -- a call that only begins works on no timestep
  have hself : ((s.beginCall kind t bbox).calls s.ncalls).pc = .entering := by
    simp only [beginCall, Function.update_self]
  refine h.of_works ⟨fun c hc => ?_, h.bounded.fetches⟩ ?_ rfl rfl (fun _ ht => ht) (fun _ ht => ht)
  · have hlt : s.ncalls < c := hc
    rw [hcall c (Nat.ne_of_gt hlt)]
    exact h.bounded.calls c (Nat.le_of_lt hlt)
  · intro t' x
    cases x with
    | fetch f => exact Iff.rfl
    | call c =>
      by_cases hc : c = s.ncalls
      -- nor did its slot, which counts as a call that has returned
      · subst hc
        obtain ⟨status, out, hpc⟩ := h.bounded.calls s.ncalls (Nat.le_refl _)
        simp [Works, hself, hpc]
      · simp only [Works, hcall c hc]

/-- Cancellation empties the maps under whoever is at work. -/
theorem Books.cancel (h : Books s) : Books (s.withStage s.stage.cancelPending).notifyAll := by
  have hqueue := Stage.cancelPending_queue s.stage
  have hbooks : Books (s.withStage s.stage.cancelPending) := by
    refine ⟨⟨h.bounded.calls, h.bounded.fetches⟩, h.unique, fun t x _ => ?_, fun t => ?_⟩
    · simp only [withStage, hqueue]
      exact ⟨rfl, rfl⟩
    · simp [withStage, hqueue]
  exact hbooks.notifyIf true

/-- **Every step keeps the books.** -/
theorem Books.step (h : Books s) {op : ReadOp} (hstep : s.step op = some s') : Books s' := by
  cases step_cases hstep with
  | begins kind t bbox => exact h.begin kind t bbox
  | calls lt ran =>
    obtain ⟨st, pc, rfl, hmove⟩ := callStep_cases ran
    exact h.callMove lt hmove
  | submits lt ran => exact h.submitStep lt ran
  -- the check after the timeout schedules nothing
  | @expires c s' lt ran =>
    obtain ⟨notified, status, out, st, hpc, hlast, rfl⟩ := expireStep_cases ran
    have hpruned := Stage.Pruned.lastCheck s.stage c (s.calls c).timestep
    rw [hlast] at hpruned
    exact h.pruned lt hpruned (by rw [hpc]; exact nofun) nofun
  | fetches lt ran =>
    obtain ⟨st, phase, notify, rfl, hmove⟩ := fetchStep_cases ran
    exact (h.fetchMove lt hmove).notifyIf notify
  -- the bookkeeping does not know who has a buffer
  | @releases c s' lt ran =>
    obtain ⟨buf, -, -, rfl⟩ := releaseStep_cases ran
    refine h.of_queue rfl rfl rfl (fun c' => ?_) rfl
    by_cases hc : c' = c
    · subst hc
      simp
    · simp [hc]
  | cancels => exact h.cancel
  | shuts => exact h.of_queue rfl rfl rfl (fun _ => rfl) rfl
  | others ran =>
    obtain ⟨st, rfl, hqueue⟩ := otherStep_queue ran
    exact h.of_queue hqueue rfl rfl (fun _ => rfl) rfl

/-- **The books agree in every run.** -/
theorem Books.of_reach {ok : PrefetchRun → ReadOp → Prop} (h : system.Reach ok s) : Books s :=
  h.invariant (fun _ ⟨depth, id, name, info, a, hs⟩ => hs ▸ .start depth id name info a)
    fun _ _ _ hs _ hstep => hs.step hstep

end PrefetchRun

end Amio
