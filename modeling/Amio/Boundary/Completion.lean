import Amio.Boundary.WriteEffects

/-!
# How a write is reported

`wait`, `flush` and `close_dataset` poll: they read a flag that the callback sets, compare the clock
with a deadline, sleep a millisecond, and read again. Each load may see a different state of the
run, so the three functions take what their loads see, and the readings of the clock, as sequences.

`wait` waits for `completed`, which the callback sets only on the path on which the driver returned.
A write whose driver threw is marked `failed` alone, so its `wait` runs into the deadline; the
failure does reach `flush` and `close_dataset`, which read the flags of the dataset.
-/

namespace Amio

/-! ### Polling -/

/-- The readings of `steady_clock` in one loop, in milliseconds: each iteration sleeps for at least
one. -/
structure SteadyClock where
  now : Nat → Int
  step : ∀ i, now i + 1 ≤ now (i + 1)

/-- `while (!done) { if (now >= deadline) stop; sleep; }` from iteration `i` on: the iteration it
leaves at and whether it saw `done`. -/
def pollUntil (done : Nat → Bool) (now : Nat → Int) (deadline : Int) :
    Nat → Nat → Option (Nat × Bool)
  | 0, _ => none
  | fuel + 1, i =>
    if done i then some (i, true)
    else if deadline ≤ now i then some (i, false)
    else pollUntil done now deadline fuel (i + 1)

/-- Every such loop ends, at the latest when the clock has reached the deadline. -/
theorem pollUntil_total (done : Nat → Bool) (clock : SteadyClock) (deadline : Int) (i : Nat) :
    ∃ fuel r, pollUntil done clock.now deadline fuel i = some r := by
  -- by induction on the milliseconds that are left
  have hend : ∀ n i : Nat, deadline ≤ clock.now i + (n : Int) →
      ∃ r, pollUntil done clock.now deadline (n + 1) i = some r := by
    intro n
    induction n with
    | zero =>
      intro i hi
      have hnow : deadline ≤ clock.now i := by omega
      unfold pollUntil
      split
      · exact ⟨_, rfl⟩
      · exact ⟨_, rfl⟩
    | succ n ih =>
      intro i hi
      have := clock.step i
      obtain ⟨r, hr⟩ := ih (i + 1) (by omega)
      unfold pollUntil
      split
      · exact ⟨_, rfl⟩
      · split
        · exact ⟨_, rfl⟩
        · exact ⟨r, hr⟩
  obtain ⟨r, hr⟩ := hend (deadline - clock.now i).toNat i (by omega)
  exact ⟨_, r, hr⟩

/-- A loop whose flag is never set leaves at the deadline. -/
theorem pollUntil_never {done : Nat → Bool} {now : Nat → Int} {deadline : Int} {fuel i : Nat}
    {r : Nat × Bool} (hnever : ∀ i, done i = false)
    (h : pollUntil done now deadline fuel i = some r) : r.2 = false := by
  induction fuel generalizing i with
  | zero => cases h
  | succ fuel ih =>
    simp only [pollUntil, hnever i, Bool.false_eq_true, if_false] at h
    split at h
    · obtain rfl := Option.some.inj h
      rfl
    · exact ih h

/-! ### The three entry points -/

/-- `timeout_ms > 0 ? timeout_ms : 86400000`. -/
def effectiveTimeout (timeoutMs : Int) : Int := if 0 < timeoutMs then timeoutMs else 86400000

/-- The end of `wait`. -/
def IoRecord.verdict (r : IoRecord) : AmioErr := if r.failed then r.failureCode else .ok

/-- The end of `flush`, and step 3 of `close_dataset`. -/
def DatasetRecord.verdict (r : DatasetRecord) : AmioErr :=
  if r.hasFailure then r.firstFailureCode else .ok

/-- `wait`; `obs i` is the record as the `i`-th loads see it. -/
def wait (obs : Nat → IoRecord) (clock : SteadyClock) (timeoutMs : Int) (fuel : Nat) :
    Option AmioErr :=
  if (obs 0).completed then some (obs 1).verdict
  else
    -- a timeout that is not positive means a day
    match pollUntil (fun i => (obs i).completed) clock.now
        (clock.now 0 + effectiveTimeout timeoutMs) fuel 1 with
    | some (i, true) => some (obs (i + 1)).verdict
    | some (_, false) => some .timeout
    | none => none

/-- `flush`. -/
def flush (obs : Nat → DatasetRecord) (clock : SteadyClock) (timeoutMs : Int) (fuel : Nat) :
    Option AmioErr :=
  -- nothing is pending: the failures are read without a wait
  if (obs 0).pendingWrites = 0 then some (obs 1).verdict
  else
    match pollUntil (fun i => decide ((obs i).pendingWrites = 0)) clock.now
        (clock.now 0 + effectiveTimeout timeoutMs) fuel 1 with
    | some (i, true) => some (obs (i + 1)).verdict
    -- the timeout says nothing of the failures
    | some (_, false) => some .timeout
    | none => none

/-- `close_dataset` of a dataset opened for writing. It waits at most 30 seconds for the pending
writes and then goes on regardless; a driver that throws on `flush` or `close` only counts when no
failure was recorded before. -/
def closeDataset (obs : Nat → DatasetRecord) (clock : SteadyClock) (outstandingViews : Nat)
    (flushOk closeOk : Bool) (fuel : Nat) : Option AmioErr :=
  if 0 < outstandingViews then some .viewsOutstanding
  else
    -- the outcome of the loop is not looked at: on a timeout the close goes on
    match pollUntil (fun i => decide ((obs i).pendingWrites = 0)) clock.now
        (clock.now 0 + 30000) fuel 0 with
    | some (i, _) =>
      let surfaced := (obs (i + 1)).verdict
      let flushed := if flushOk = false ∧ surfaced = .ok then .backendFailure else surfaced
      some (if closeOk = false ∧ flushed = .ok then .backendFailure else flushed)
    | none => none

section Entry

variable {clock : SteadyClock}

/-- `wait` on a record that is not completed, whatever else is set, times out. -/
theorem wait_of_not_completed {obs : Nat → IoRecord} {timeoutMs : Int} {fuel : Nat} {v : AmioErr}
    (h : ∀ i, (obs i).completed = false) (hv : wait obs clock timeoutMs fuel = some v) :
    v = .timeout := by
  simp only [wait, h 0, Bool.false_eq_true, if_false] at hv
  split at hv
  · next i hpoll => cases pollUntil_never h hpoll
  · exact (Option.some.inj hv).symm
  · cases hv

/-- … and it does return. -/
theorem wait_total_of_not_completed {obs : Nat → IoRecord} (timeoutMs : Int)
    (h : ∀ i, (obs i).completed = false) :
    ∃ fuel, wait obs clock timeoutMs fuel = some .timeout := by
  obtain ⟨fuel, ⟨i, b⟩, hr⟩ := pollUntil_total (fun i => (obs i).completed) clock
    (clock.now 0 + effectiveTimeout timeoutMs) 1
  obtain rfl : b = false := pollUntil_never h hr
  exact ⟨fuel, by simp [wait, h 0, hr]⟩

/-- `flush` returns, and not `AMIO_OK` when every load sees the dataset failed. -/
theorem flush_of_failed {obs : Nat → DatasetRecord} {code : AmioErr} (timeoutMs : Int)
    (hne : code ≠ .ok) (h : ∀ i, (obs i).verdict = code) :
    ∃ fuel v, flush obs clock timeoutMs fuel = some v ∧ v ≠ .ok := by
  obtain ⟨fuel, r, hr⟩ := pollUntil_total (fun i => decide ((obs i).pendingWrites = 0)) clock
    (clock.now 0 + effectiveTimeout timeoutMs) 1
  refine ⟨fuel, ?_⟩
  unfold flush
  split
  · exact ⟨_, rfl, by rw [h]; exact hne⟩
  · rw [hr]
    obtain ⟨i, b⟩ := r
    cases b with
    | true => exact ⟨_, rfl, by rw [h]; exact hne⟩
    | false => exact ⟨_, rfl, by simp⟩

/-- `close_dataset` returns, and not `AMIO_OK` when every load sees the dataset failed. -/
theorem closeDataset_of_failed {obs : Nat → DatasetRecord} {code : AmioErr} (views : Nat)
    (flushOk closeOk : Bool) (hne : code ≠ .ok) (h : ∀ i, (obs i).verdict = code) :
    ∃ fuel v, closeDataset obs clock views flushOk closeOk fuel = some v ∧ v ≠ .ok := by
  obtain ⟨fuel, r, hr⟩ := pollUntil_total (fun i => decide ((obs i).pendingWrites = 0)) clock
    (clock.now 0 + 30000) 0
  refine ⟨fuel, ?_⟩
  unfold closeDataset
  split
  · exact ⟨_, rfl, by simp⟩
  · rw [hr]
    refine ⟨code, ?_, hne⟩
    simp [h, hne]

end Entry

namespace WriteRun

variable {s s' : WriteRun} {c : Nat}

/-! ### What a finished write leaves behind -/

/-- The callback of `c` has finished and left the flags `completed`, `failed` and `code`. -/
structure Finished (s : WriteRun) (c d : Nat) (completed failed : Bool) (code : AmioErr) :
    Prop where
  cb : (s.calls c).cb = .finished
  dataset : (s.calls c).args.dataset = d
  completed : (s.calls c).io.completed = completed
  failed : (s.calls c).io.failed = failed
  code : (s.calls c).io.failureCode = code

/-- **The flags of a finished write are final.** -/
theorem Finished.step {op : WriteOp} {d : Nat} {completed failed : Bool} {code : AmioErr}
    (hi : Inv s) (hs : Finished s c d completed failed code) (h : Step s op s') :
    Finished s' c d completed failed code := by
  -- the host thread may still have to count and return, but the callback is over and is not
  -- entered again (`waiting_of_dequeued`)
  obtain ⟨hpast, hlt⟩ := hi.past_of_cb (c := c) (by rw [hs.cb]; simp)
  have hset : ∀ (e : Nat) (x : WriteCall), s'.calls = Function.update s.calls e x →
      (e = c → x.cb = .finished ∧ x.args.dataset = d ∧ x.io.completed = completed ∧
        x.io.failed = failed ∧ x.io.failureCode = code) →
      Finished s' c d completed failed code := by
    intro e x hcalls hx
    by_cases he : c = e
    · subst he
      obtain ⟨h1, h2, h3, h4, h5⟩ := hx rfl
      constructor <;> rw [hcalls, Function.update_self] <;> assumption
    · constructor <;> rw [hcalls, Function.update_of_ne he]
      exacts [hs.cb, hs.dataset, hs.completed, hs.failed, hs.code]
  have hsame : s'.calls = s.calls → Finished s' c d completed failed code := by
    intro hcalls
    constructor <;> rw [hcalls]
    exacts [hs.cb, hs.dataset, hs.completed, hs.failed, hs.code]
  cases h with
  | call args => exact hset _ _ rfl fun he => by omega
  | @got e b op p' he pc | @denied e op p' pc' he pc =>
    refine hset _ _ rfl ?_
    rintro rfl
    rcases pc with pc | pc <;> (rw [pc] at hpast; cases hpast)
  | @copied e bytes he pc | @inserted e he pc | @entered e r he pc =>
    refine hset _ _ rfl ?_
    rintro rfl
    rw [pc] at hpast
    cases hpast
  | @submitted e | @counted e | @returned e =>
    refine hset _ _ rfl ?_
    rintro rfl
    exact ⟨hs.cb, hs.dataset, hs.completed, hs.failed, hs.code⟩
  | @began w e ok run pc | @answered w e ok run pc | @completed w e ok run pc
  | @failed w e ok run pc | @coded w e ok run pc | @marked w e ok run pc
  | @firstCode w e ok run pc | @gaveBack w e ok run pc | @subtracted w e ok run pc =>
    refine hset _ _ rfl ?_
    rintro rfl
    rw [hs.cb] at pc
    cases pc
  | @locked w e t r hr hw hcb =>
    refine hset _ _ rfl ?_
    rintro rfl
    have := hi.waiting_of_dequeued hw hcb
    rw [hs.cb] at this
    cases this
  | sectioned | advanced | otherGot | otherDenied | otherRelease | otherFill | otherHandles
  | flushBegan | flushRead | flushTimeout | flushFinish => exact hsame rfl

theorem Finished.after {d : Nat} {completed failed : Bool} {code : AmioErr} (hg : Good s)
    (hs : Finished s c d completed failed code) (h : system.After s s') :
    Finished s' c d completed failed code :=
  Lts.System.After.stable (J := Good) (Q := fun t => Finished t c d completed failed code)
    (fun _ _ _ hj hstep => hj.step (step_cases hstep))
    (fun _ _ _ hj hq hstep => hq.step hj.toInv (step_cases hstep)) h hg hs

/-- A failure recorded against a dataset stays. -/
theorem verdict_after {d : Nat} (hg : Good s) (hfail : (s.datasets d).hasFailure = true)
    (hcode : (s.datasets d).firstFailureCode = .backendFailure) (h : system.After s s') :
    (s'.datasets d).verdict = .backendFailure := by
  have hboth := Lts.System.After.stable (J := Good)
    (Q := fun t => (t.datasets d).hasFailure = true ∧
      (t.datasets d).firstFailureCode = .backendFailure)
    (fun _ _ _ hj hstep => hj.step (step_cases hstep))
    (fun _ _ _ _ hq hstep =>
      ⟨((step_cases hstep).raised d).1 hq.1, ((step_cases hstep).raised d).2 hq.2⟩) h hg
    ⟨hfail, hcode⟩
  simp [DatasetRecord.verdict, hboth.1, hboth.2]

/-! ### The promise -/

/-- What is promised of a write `c` whose callback has finished in `s`, however the run goes on and
whatever states the loads of the host see. -/
structure Surfaces (s : WriteRun) (c : Nat) : Prop where
  /-- The driver threw: `wait` returns the failure code … -/
  wait_failed : (s.calls c).outcome = some false → ∀ view : Nat → WriteRun,
    (∀ i, system.After s (view i)) → ∀ (clock : SteadyClock) (timeoutMs : Int),
    ∃ fuel, wait (fun i => ((view i).calls c).io) clock timeoutMs fuel =
      some (s.calls c).io.failureCode ∧
      (s.calls c).io.failureCode ≠ .ok ∧ (s.calls c).io.failureCode ≠ .timeout
  /-- … `flush` returns an error … -/
  flush_failed : (s.calls c).outcome = some false → ∀ view : Nat → WriteRun,
    (∀ i, system.After s (view i)) → ∀ (clock : SteadyClock) (timeoutMs : Int),
    ∃ fuel v, flush (fun i => (view i).datasets (s.calls c).args.dataset) clock timeoutMs fuel =
      some v ∧ v ≠ .ok
  /-- … and so does `close_dataset`. -/
  close_failed : (s.calls c).outcome = some false → ∀ view : Nat → WriteRun,
    (∀ i, system.After s (view i)) → ∀ (clock : SteadyClock) (views : Nat) (flushOk closeOk : Bool),
    ∃ fuel v, closeDataset (fun i => (view i).datasets (s.calls c).args.dataset) clock views flushOk
      closeOk fuel = some v ∧ v ≠ .ok
  /-- The driver returned: `wait` returns `AMIO_OK`. -/
  wait_ok : (s.calls c).outcome = some true → ∀ view : Nat → WriteRun,
    (∀ i, system.After s (view i)) → ∀ (clock : SteadyClock) (timeoutMs : Int),
    ∃ fuel, wait (fun i => ((view i).calls c).io) clock timeoutMs fuel = some .ok

/-- The flags that a finished write has left. -/
theorem Good.finished (hs : Good s) (hfin : (s.calls c).cb = .finished) :
    ((s.calls c).outcome = some true ∧
      Finished s c (s.calls c).args.dataset true false (s.calls c).io.failureCode) ∨
    ((s.calls c).outcome = some false ∧
      Finished s c (s.calls c).args.dataset false true .backendFailure) := by
  have hflags := (hs.calls c).flags
  rw [hfin] at hflags
  rcases hflags with ⟨hout, hc, hf⟩ | ⟨hout, hc, hf, hcode⟩
  · exact .inl ⟨hout, hfin, rfl, hc, hf, rfl⟩
  · exact .inr ⟨hout, hfin, rfl, hc, hf, hcode⟩

/-- A write whose driver returned is reported. -/
theorem Good.wait_ok (hs : Good s) (hfin : (s.calls c).cb = .finished)
    (hout : (s.calls c).outcome = some true) (view : Nat → WriteRun)
    (hview : ∀ i, system.After s (view i)) (clock : SteadyClock) (timeoutMs : Int) :
    wait (fun i => ((view i).calls c).io) clock timeoutMs 0 = some .ok := by
  obtain ⟨-, hf⟩ | ⟨hout', -⟩ := hs.finished hfin
  · have h0 := hf.after hs (hview 0)
    have h1 := hf.after hs (hview 1)
    simp [wait, h0.completed, IoRecord.verdict, h1.failed]
  · rw [hout] at hout'
    cases hout'

/-- A write whose driver threw is not: `wait` never returns its failure code. -/
theorem Good.not_wait_failed (hs : Good s) (hfin : (s.calls c).cb = .finished)
    (hout : (s.calls c).outcome = some false) : ¬ Surfaces s c := by
  intro hsurf
  obtain ⟨hout', -⟩ | ⟨-, hf⟩ := hs.finished hfin
  · rw [hout] at hout'
    cases hout'
  -- any clock will do: no load of `completed` is ever true
  · have hclock : SteadyClock := ⟨fun i => i, fun i => by simp⟩
    obtain ⟨fuel, hwait, -, hne⟩ := hsurf.wait_failed hout (fun _ => s)
      (fun _ => Relation.ReflTransGen.refl) hclock 1
    exact hne (wait_of_not_completed (fun _ => hf.completed) hwait)

/-- The failure of a write does reach `flush` and `close_dataset`. -/
theorem Good.verdict_of_failed (hs : Good s) (hfin : (s.calls c).cb = .finished)
    (hout : (s.calls c).outcome = some false) (h : system.After s s') :
    (s'.datasets (s.calls c).args.dataset).verdict = .backendFailure := by
  obtain ⟨hfail, hcode⟩ := (hs.failing.call c).surfaced (by rw [hfin]; rfl) hout
  exact verdict_after hs hfail hcode h

/-- So a failed write is reported by both, however the run goes on. -/
theorem Good.dataset_reports_failure (hs : Good s) (hfin : (s.calls c).cb = .finished)
    (hout : (s.calls c).outcome = some false) (view : Nat → WriteRun)
    (hview : ∀ i, system.After s (view i)) (clock : SteadyClock) :
    (∀ timeoutMs, ∃ fuel v, flush (fun i => (view i).datasets (s.calls c).args.dataset) clock
      timeoutMs fuel = some v ∧ v ≠ .ok) ∧
    (∀ views flushOk closeOk, ∃ fuel v, closeDataset
      (fun i => (view i).datasets (s.calls c).args.dataset) clock views flushOk closeOk fuel =
        some v ∧ v ≠ .ok) := by
  have hverdict := fun i => hs.verdict_of_failed hfin hout (hview i)
  exact ⟨fun timeoutMs => flush_of_failed timeoutMs (by simp) hverdict,
    fun views flushOk closeOk => closeDataset_of_failed views flushOk closeOk (by simp) hverdict⟩

/-- **A write is reported exactly when its driver returned.** In every run, once the callback of a
write has finished, `wait`, `flush` and `close_dataset` report it as promised if and only if
`driver->write` returned normally. -/
theorem surfaces_iff (h : system.Reachable s) (hfin : (s.calls c).cb = .finished) :
    Surfaces s c ↔ (s.calls c).outcome = some true := by
  have hs := Good.of_reach h
  constructor
  · intro hsurf
    obtain ⟨hout, -⟩ | ⟨hout, -⟩ := hs.finished hfin
    · exact hout
    · exact absurd hsurf (hs.not_wait_failed hfin hout)
  · intro hout
    have hnot : (s.calls c).outcome ≠ some false := by rw [hout]; simp
    exact ⟨fun h => absurd h hnot, fun h => absurd h hnot, fun h => absurd h hnot,
      fun _ view hview clock timeoutMs => ⟨0, hs.wait_ok hfin hout view hview clock timeoutMs⟩⟩

/-- One byte written to the variable `v`, whose driver call ends as `ok` says. -/
def singleWriteOps (ok : Bool) : List WriteOp :=
  prepareOps 0 [118] 42 ++ submitOps 0 ++ executeOps 0 ok

theorem surfaces_of_one_write : ∃ s, system.Reachable s ∧ (s.calls 0).cb = .finished ∧
    (s.calls 0).outcome = some true ∧ Surfaces s 0 := by
  refine ⟨_, Lts.System.Reachable.of_replay (singleWriteOps true)
    (byteCore_init 1 (by decide) {}) rfl, rfl, rfl, ?_⟩
  exact (surfaces_iff (Lts.System.Reachable.of_replay (singleWriteOps true)
    (byteCore_init 1 (by decide) {}) rfl) rfl).2 rfl

/-- A write whose driver throws: the failure is recorded in `failed`, and `wait` with any timeout
looks at `completed` until its deadline has passed. -/
theorem failed_write_times_out : ∃ s, system.Reachable s ∧ (s.calls 0).cb = .finished ∧
    (s.calls 0).outcome = some false ∧ (s.calls 0).io.failureCode = .backendFailure ∧
    (∀ (clock : SteadyClock) (timeoutMs : Int), ∃ fuel,
      wait (fun _ => (s.calls 0).io) clock timeoutMs fuel = some .timeout) ∧ ¬ Surfaces s 0 := by
  refine ⟨_, Lts.System.Reachable.of_replay (singleWriteOps false)
    (byteCore_init 1 (by decide) {}) rfl, rfl, rfl, rfl, fun clock timeoutMs => ?_, ?_⟩
  · exact wait_total_of_not_completed timeoutMs fun _ => rfl
  · have hgood := Good.of_reach (Lts.System.Reachable.of_replay (singleWriteOps false)
      (byteCore_init 1 (by decide) {}) rfl)
    exact hgood.not_wait_failed rfl rfl

end WriteRun

end Amio
