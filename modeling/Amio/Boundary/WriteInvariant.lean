import Amio.Boundary.WriteSteps

/-!
# Invariants of the write path

`Linked` ties the calls to the worker pool: a task that was accepted belongs to one call, whose
`submit_write` returned; a call whose callback has been entered has its task with a worker or done;
and a task that a worker is done with has a finished callback. Since the pool keeps every accepted
task exactly once (`WorkerRun.Conserved`), a callback is entered at most once.

`CallOk` is what can be said of one call alone: which of its flags are set at which point of its
callback. `Staged` says that a call owns its staging buffer from `acquire` to the release in the
callback and that the buffer holds what was copied, and `Logged` that the driver was asked once,
with that payload. `Failing` is about the failure flags of the datasets.
-/

namespace Amio

/-! ### One call -/

/-- The flags of a write by the position of its callback. -/
def flagsOk (outcome : Option Bool) (io : IoRecord) : CallbackPc → Prop
  | .waiting | .entered | .inDriver => outcome = none ∧ io.completed = false ∧ io.failed = false
  | .wrote => outcome = some true ∧ io.completed = false ∧ io.failed = false
  | .threw => outcome = some false ∧ io.completed = false ∧ io.failed = false
  -- a failure raises `failed` first, then its code
  | .markedFailed => outcome = some false ∧ io.completed = false ∧ io.failed = true
  | .coded | .markedDataset =>
    outcome = some false ∧ io.completed = false ∧ io.failed = true ∧
      io.failureCode = .backendFailure
  -- `completed` is raised after a success only
  | .flagged | .released | .finished =>
    (outcome = some true ∧ io.completed = true ∧ io.failed = false) ∨
      (outcome = some false ∧ io.completed = false ∧ io.failed = true ∧
        io.failureCode = .backendFailure)

structure CallOk (x : WriteCall) : Prop where
  early : x.host.past = false → x.cb = .waiting
  flags : flagsOk x.outcome x.io x.cb

/-- The submission of call `c` by the position of the call. -/
structure SubmitterOk (c : Nat) (x : WriteCall) (sub : Submitter Closure) : Prop where
  early : x.host.past = false → sub = .idle ∧ x.result = none
  during : x.host = .submitting → x.result = none ∧
    ((∃ req, req.callback = .write c ∧ (sub = .entered req ∨ sub = .waiting req)) ∨
      ∃ r, sub = .returned r)
  after : x.host.past = true → x.host ≠ .submitting → ∃ r, sub = .returned r ∧ x.result = some r

/-- A submission under way is that of a call inside `submit_write`. -/
theorem SubmitterOk.of_busy {c : Nat} {x : WriteCall} {sub : Submitter Closure}
    {req : WriteRequest Closure} (h : SubmitterOk c x sub)
    (hsub : sub = .entered req ∨ sub = .waiting req) :
    x.host = .submitting ∧ x.result = none ∧ req.callback = .write c := by
  -- before `submit_write` the submitter is idle, after it has returned: neither fits
  have hpast : x.host.past = true := by
    by_contra hpast
    have := (h.early (by simpa using hpast)).1
    rcases hsub with rfl | rfl <;> cases this
  have hpc : x.host = .submitting := by
    by_contra hne
    obtain ⟨r, hr, -⟩ := h.after hpast hne
    rcases hsub with rfl | rfl <;> cases hr
  obtain ⟨hres, ⟨req', hreq', hcase⟩ | ⟨r, hr⟩⟩ := h.during hpc
  · refine ⟨hpc, hres, ?_⟩
    rcases hsub with rfl | rfl <;> rcases hcase with hcase | hcase <;> cases hcase <;> exact hreq'
  · rcases hsub with rfl | rfl <;> cases hr

/-- A call moves on before it reaches `submit_write`. -/
theorem SubmitterOk.of_early {c : Nat} {x x' : WriteCall} {sub : Submitter Closure}
    (h : SubmitterOk c x sub) (hx : x.host.past = false) (hx' : x'.host.past = false)
    (hres : x'.result = x.result) : SubmitterOk c x' sub where
  early := fun _ => ⟨(h.early hx).1, hres.trans (h.early hx).2⟩
  during := fun hpc => by rw [hpc] at hx'; cases hx'
  after := fun hpast => by rw [hpast] at hx'; cases hx'

/-- A call moves on after `submit_write` returned. -/
theorem SubmitterOk.of_after {c : Nat} {x x' : WriteCall} {sub : Submitter Closure}
    (h : SubmitterOk c x sub) (hx : x.host.past = true) (hne : x.host ≠ .submitting)
    (hx' : x'.host.past = true) (hne' : x'.host ≠ .submitting) (hres : x'.result = x.result) :
    SubmitterOk c x' sub where
  early := fun hpast => by rw [hx'] at hpast; cases hpast
  during := fun hpc => absurd hpc hne'
  after := fun _ _ => hres ▸ h.after hx hne

/-- Past `submit_write` the call has its buffer. -/
theorem HostPc.hasBuffer_of_past {pc : HostPc} (h : pc.past = true) : pc.hasBuffer = true := by
  cases pc <;> simp_all [HostPc.past, HostPc.hasBuffer]

/-- A call that has just begun has acquired nothing, whether its arguments were accepted or not. -/
theorem WriteArgs.entry_hasBuffer (a : WriteArgs) :
    (if a.check = .ok then HostPc.checked else .returned a.check).hasBuffer = false := by
  split
  · rfl
  · next hne =>
    revert hne
    cases a.check <;> simp [HostPc.hasBuffer, HostPc.past]

/-- Whether a submission was accepted, as a number. -/
def Submitter.accepts : Submitter Closure → Nat
  | .returned (.accepted _) => 1
  | _ => 0

namespace WriteRun

variable {s s' : WriteRun}

/-! ### Calls and worker pool -/

structure Linked (s : WriteRun) : Prop where
  -- the pool keeps each accepted task exactly once, in order
  workers : s.workers.Inv
  fresh : ∀ c, s.ncalls ≤ c → (s.calls c).host.hasBuffer = false
  submitters : ∀ c, SubmitterOk c (s.calls c) (s.workers.pool.submitter c)
  -- an accepted task belongs to the call that submitted it, which learnt so
  task : ∀ t ∈ s.workers.accepted,
    ∃ c, t.callback = .write c ∧ s.workers.pool.submitter c = .returned (.accepted t.dvSeq)
  once : ∀ c, s.workers.accepted.countP (·.callback = .write c) =
    (s.workers.pool.submitter c).accepts
  -- where a callback is, by where its task is
  running : ∀ w t c, s.workers.pool.worker w = .writing t .locked → t.callback = .write c →
    (s.calls c).cb ≠ .waiting
  ran : ∀ w t c, s.workers.pool.worker w = .writing t .ran → t.callback = .write c →
    (s.calls c).cb = .finished
  done : ∀ t c, t ∈ s.workers.completed → t.callback = .write c → (s.calls c).cb = .finished
  -- and back: an entered callback has its task with a worker, or the task is done
  active : ∀ c, (s.calls c).cb ≠ .waiting →
    (∃ w t, (s.workers.pool.worker w = .writing t .locked ∨
      s.workers.pool.worker w = .writing t .ran) ∧ t.callback = .write c) ∨
    ∃ t ∈ s.workers.completed, t.callback = .write c

/-- A task in flight was accepted. -/
theorem Linked.accepted_of_outstanding (hs : Linked s) {w : Nat} {t : WriteTask Closure}
    (ht : t ∈ (s.workers.pool.worker w).outstanding) : t ∈ s.workers.accepted := by
  have hw := hs.workers.lt_of_ne_idle (w := w) fun h => Multiset.notMem_zero _ (by rwa [h] at ht)
  have hmem : t ∈ (s.workers.accepted : Multiset (WriteTask Closure)) := by
    rw [hs.workers.writes]
    refine Multiset.mem_add.mpr (.inl (Multiset.mem_add.mpr (.inr ?_)))
    exact Multiset.mem_sum.mpr ⟨w, Finset.mem_range.mpr hw, ht⟩
  exact hmem

/-- Only a call that began has reached `submit_write`. -/
theorem Linked.lt_of_past (hs : Linked s) {c : Nat} (h : (s.calls c).host.past = true) :
    c < s.ncalls := by
  by_contra hge
  have hbuf := hs.fresh c (by omega)
  rw [HostPc.hasBuffer_of_past h] at hbuf
  cases hbuf

/-- The next call has not been made. -/
theorem Linked.next_not_past (hs : Linked s) : (s.calls s.ncalls).host.past = false := by
  by_contra h
  exact Nat.lt_irrefl _ (hs.lt_of_past (by simpa using h))

/-- A write is accepted at most once. -/
theorem Linked.once_le (hs : Linked s) (c : Nat) :
    s.workers.accepted.countP (·.callback = .write c) ≤ 1 := by
  rw [hs.once]
  unfold Submitter.accepts
  split <;> omega

/-- The call of a task in flight has reached `submit_write`. -/
theorem Linked.past_of_outstanding (hs : Linked s) {w c : Nat} {t : WriteTask Closure}
    (ht : t ∈ (s.workers.pool.worker w).outstanding) (hcb : t.callback = .write c) :
    (s.calls c).host.past = true := by
  obtain ⟨c', hcb', hsub⟩ := hs.task t (hs.accepted_of_outstanding ht)
  rw [hcb] at hcb'
  obtain rfl := Closure.write.inj hcb'
  -- the submitter of the task has returned, and before `submit_write` it is idle
  by_contra hpast
  have := ((hs.submitters c).early (by simpa using hpast)).1
  rw [this] at hsub
  cases hsub

/-- **A callback is entered once**: a worker about to enter it finds it not entered. -/
theorem Linked.waiting_of_dequeued (hs : Linked s) {w c : Nat} {t : WriteTask Closure}
    (hw : s.workers.pool.worker w = .writing t .dequeued) (hcb : t.callback = .write c) :
    (s.calls c).cb = .waiting := by
  by_contra hne
  have ht : t ∈ (s.workers.pool.worker w).outstanding := Worker.mem_outstanding.mpr (.inl hw)
  -- were it entered, its task would be with a worker past the lock or done; the pool holds the
  -- one task of `c` once, so neither leaves room for `t`
  rcases hs.active c hne with ⟨v, u, hv, hu⟩ | ⟨u, hu, hucb⟩
  · have hmem : u ∈ (s.workers.pool.worker v).outstanding :=
      Worker.mem_outstanding.mpr (.inr hv)
    obtain rfl := hs.workers.outstanding_unique (hs.once_le c) ht hcb hmem hu
    rw [hw] at hv
    rcases hv with hv | hv <;> cases hv
  · exact hs.workers.outstanding_not_completed (hs.once_le c) ht hcb u hu hucb

theorem Linked.initial (a : PoolArgs) (n : Nat) (bp : BackpressureConfig) (ids : Nat → UInt64) :
    Linked (start a n bp ids) where
  workers := .initial n bp
  fresh := fun _ _ => rfl
  submitters := fun _ => ⟨fun _ => ⟨rfl, rfl⟩, nofun, nofun⟩
  task := fun _ h => absurd h List.not_mem_nil
  once := fun _ => rfl
  running := fun _ _ _ h => by simp [start, WorkerRun.start, WorkerPool.create] at h
  ran := fun _ _ _ h => by simp [start, WorkerRun.start, WorkerPool.create] at h
  done := fun _ _ h => absurd h List.not_mem_nil
  active := fun _ h => absurd rfl h

/-- A step that changes one call and neither enters a callback nor goes back on a finished one. -/
theorem Linked.setCall (hs : Linked s) {c : Nat} {x : WriteCall}
    (hworkers : s'.workers = s.workers) (hn : s.ncalls ≤ s'.ncalls) (hc : c < s'.ncalls)
    (hcalls : s'.calls = Function.update s.calls c x)
    (hsub : SubmitterOk c x (s.workers.pool.submitter c))
    (hwait : x.cb = .waiting ↔ (s.calls c).cb = .waiting)
    (hfin : (s.calls c).cb = .finished → x.cb = .finished) : Linked s' := by
  -- a fact about every `cb` survives when it survives at `c`
  have hat : ∀ {P : CallbackPc → Prop} (d : Nat), (P (s.calls d).cb) →
      (d = c → P (s.calls c).cb → P x.cb) → P (s'.calls d).cb := by
    intro P d hP himp
    rw [hcalls]
    by_cases hd : d = c
    · subst hd; rw [Function.update_self]; exact himp rfl hP
    · rw [Function.update_of_ne hd]; exact hP
  refine
    { workers := hworkers ▸ hs.workers
      fresh := ?_
      submitters := ?_
      task := by rw [hworkers]; exact hs.task
      once := by rw [hworkers]; exact hs.once
      running := ?_, ran := ?_, done := ?_, active := ?_ }
  · intro d hd
    rw [hcalls, Function.update_of_ne (by omega)]
    exact hs.fresh d (by omega)
  · rw [hcalls, hworkers]
    exact (Function.forall_update_iff s.calls fun d y =>
      SubmitterOk d y (s.workers.pool.submitter d)).mpr ⟨hsub, fun d _ => hs.submitters d⟩
  · rw [hworkers]
    intro w t d hw hcb
    exact hat (P := (· ≠ .waiting)) d (hs.running w t d hw hcb) fun _ h => mt hwait.mp h
  · rw [hworkers]
    intro w t d hw hcb
    exact hat (P := (· = .finished)) d (hs.ran w t d hw hcb) fun _ h => hfin h
  · rw [hworkers]
    intro t d ht hcb
    exact hat (P := (· = .finished)) d (hs.done t d ht hcb) fun _ h => hfin h
  · rw [hworkers]
    intro d hne
    refine hs.active d fun heq => hne ?_
    exact hat (P := (· = .waiting)) d heq fun _ h => hwait.mpr h

/-- A step of the pool that accepts nothing. -/
theorem Linked.setWorkers (hs : Linked s) {r : WorkerRun Closure} (hinv : r.Inv)
    (hacc : r.accepted = s.workers.accepted) (hsub : r.pool.submitter = s.workers.pool.submitter)
    (running : ∀ w t c, r.pool.worker w = .writing t .locked → t.callback = .write c →
      (s.calls c).cb ≠ .waiting)
    (ran : ∀ w t c, r.pool.worker w = .writing t .ran → t.callback = .write c →
      (s.calls c).cb = .finished)
    (done : ∀ t c, t ∈ r.completed → t.callback = .write c → (s.calls c).cb = .finished)
    (active : ∀ c, (s.calls c).cb ≠ .waiting →
      (∃ w t, (r.pool.worker w = .writing t .locked ∨ r.pool.worker w = .writing t .ran) ∧
        t.callback = .write c) ∨ ∃ t ∈ r.completed, t.callback = .write c) :
    Linked { s with workers := r } where
  workers := hinv
  fresh := hs.fresh
  submitters := by simp only [hsub]; exact hs.submitters
  task := by simp only [hacc, hsub]; exact hs.task
  once := by simp only [hacc, hsub]; exact hs.once
  running := running
  ran := ran
  done := done
  active := active

/-- A step of the pool that accepts nothing and takes one worker on. What is owed is about that
worker alone: the callbacks it is in afterwards, and what became of the one it was in. -/
theorem Linked.setWorker (hs : Linked s) {w : Nat} {x : Worker Closure} {r : WorkerRun Closure}
    (hinv : r.Inv) (hacc : r.accepted = s.workers.accepted)
    (hsub : r.pool.submitter = s.workers.pool.submitter)
    (after : r.pool.worker = Function.update s.workers.pool.worker w x)
    (completed : ∀ t ∈ s.workers.completed, t ∈ r.completed)
    (running : ∀ t c, x = .writing t .locked → t.callback = .write c → (s.calls c).cb ≠ .waiting)
    (ran : ∀ t c, x = .writing t .ran → t.callback = .write c → (s.calls c).cb = .finished)
    (done : ∀ t c, t ∈ r.completed → t.callback = .write c → (s.calls c).cb = .finished)
    (left : ∀ t, (s.workers.pool.worker w = .writing t .locked ∨
      s.workers.pool.worker w = .writing t .ran) → x = .writing t .ran ∨ t ∈ r.completed) :
    Linked { s with workers := r } := by
  have hupdate : ∀ {v : Nat} {u : WriteTask Closure} {ph : WritePhase},
      r.pool.worker v = .writing u ph →
      x = .writing u ph ∨ s.workers.pool.worker v = .writing u ph := by
    intro v u ph hv
    rw [after] at hv
    by_cases hvw : v = w
    · subst hvw; rw [Function.update_self] at hv; exact .inl hv
    · rw [Function.update_of_ne hvw] at hv; exact .inr hv
  -- the worker itself is in its new phase, the others are where they were
  refine hs.setWorkers hinv hacc hsub ?_ ?_ done ?_
  · intro v u d hv hcb
    rcases hupdate hv with hx | hv
    · exact running u d hx hcb
    · exact hs.running v u d hv hcb
  · intro v u d hv hcb
    rcases hupdate hv with hx | hv
    · exact ran u d hx hcb
    · exact hs.ran v u d hv hcb
  · -- a callback that was entered is still with its worker, or has left the pool with its task
    intro d hne
    rcases hs.active d hne with ⟨v, u, hv, hcb⟩ | ⟨u, hu, hcb⟩
    · by_cases hvw : v = w
      · subst hvw
        rcases left u hv with hx | hu
        · exact .inl ⟨v, u, .inr (by rw [after, Function.update_self, hx]), hcb⟩
        · exact .inr ⟨u, hu, hcb⟩
      · exact .inl ⟨v, u, by rwa [after, Function.update_of_ne hvw], hcb⟩
    · exact .inr ⟨u, completed u hu, hcb⟩

/-- A step of the pool that leaves the workers alone and takes a submission of call `c` on. -/
theorem Linked.setSubmitter (hs : Linked s) {c : Nat} {r : WorkerRun Closure}
    {y : Submitter Closure} (hinv : r.Inv) (hworker : r.pool.worker = s.workers.pool.worker)
    (hcomp : r.completed = s.workers.completed)
    (hsub : r.pool.submitter = Function.update s.workers.pool.submitter c y)
    (hbefore : ∀ seq, s.workers.pool.submitter c ≠ .returned (.accepted seq))
    (hy : SubmitterOk c (s.calls c) y)
    (hacc : ∀ t ∈ r.accepted, t ∈ s.workers.accepted ∨
      t.callback = .write c ∧ y = .returned (.accepted t.dvSeq))
    (honce : ∀ d, r.accepted.countP (·.callback = .write d) =
      (Function.update s.workers.pool.submitter c y d).accepts) :
    Linked { s with workers := r } := by
  refine
    { workers := hinv, fresh := hs.fresh, submitters := ?_, task := ?_
      once := by simpa only [hsub] using honce
      running := by simp only [hworker]; exact hs.running
      ran := by simp only [hworker]; exact hs.ran
      done := by simp only [hcomp]; exact hs.done
      active := by simp only [hworker, hcomp]; exact hs.active }
  -- the submitter of `c` is in its new state
  · simp only [hsub]
    exact (Function.forall_update_iff s.workers.pool.submitter fun d y =>
      SubmitterOk d (s.calls d) y).mpr ⟨hy, fun d _ => hs.submitters d⟩
  -- a task that was accepted now is the one of `c`
  · intro t ht
    simp only [hsub]
    rcases hacc t ht with ht | ⟨hcb, rfl⟩
    · obtain ⟨d, hcb, hd⟩ := hs.task t ht
      have hne : d ≠ c := by rintro rfl; exact hbefore _ hd
      exact ⟨d, hcb, by rw [Function.update_of_ne hne]; exact hd⟩
    · exact ⟨c, hcb, by rw [Function.update_self]⟩

/-- A critical section of the pool. -/
theorem Linked.sectioned (hs : Linked s) {r : WorkerRun Closure} (hinv : r.Inv)
    (hcomp : r.completed = s.workers.completed) (h : s.workers.Sectioned r) :
    Linked { s with workers := r } := by
  -- a submission that is not accepted leaves the counts as they are
  have hsame : ∀ {c : Nat} {y : Submitter Closure}, y.accepts = 0 →
      (s.workers.pool.submitter c).accepts = 0 →
      ∀ d, s.workers.accepted.countP (·.callback = .write d) =
        (Function.update s.workers.pool.submitter c y d).accepts := by
    intro c y hy hc d
    rw [hs.once d]
    by_cases hd : d = c
    · subst hd; rw [Function.update_self, hy, hc]
    · rw [Function.update_of_ne hd]
  cases h with
  | waits c req before after accepted worker =>
    obtain ⟨hpc, hres, hreq⟩ := (hs.submitters c).of_busy (.inl before)
    refine hs.setSubmitter hinv worker hcomp after (by simp [before])
      ⟨by simp [hpc, HostPc.past], fun _ => ⟨hres, .inl ⟨req, hreq, .inr rfl⟩⟩, by simp [hpc]⟩
      (fun t ht => .inl (accepted ▸ ht)) (accepted ▸ hsame rfl (by rw [before]; rfl))
  | refused c req res before refusal after accepted worker =>
    obtain ⟨hpc, hres, hreq⟩ := (hs.submitters c).of_busy before
    have hzero : (s.workers.pool.submitter c).accepts = 0 := by
      rcases before with before | before <;> (rw [before]; rfl)
    have hres0 : (Submitter.returned res : Submitter Closure).accepts = 0 := by
      have := WorkerRun.refusal_ne_accepted refusal
      cases res with
      | accepted n => exact absurd rfl (this n)
      | shutDown => rfl
      | queueFull => rfl
    refine hs.setSubmitter hinv worker hcomp after ?_
      ⟨by simp [hpc, HostPc.past], fun _ => ⟨hres, .inr ⟨res, rfl⟩⟩, by simp [hpc]⟩
      (fun t ht => .inl (accepted ▸ ht)) (accepted ▸ hsame hres0 hzero)
    intro seq hseq
    rw [hseq] at hzero
    cases hzero
  | admitted c req before refusal after accepted worker =>
    obtain ⟨hpc, hres, hreq⟩ := (hs.submitters c).of_busy before
    have hzero : (s.workers.pool.submitter c).accepts = 0 := by
      rcases before with before | before <;> (rw [before]; rfl)
    refine hs.setSubmitter hinv worker hcomp after ?_
      ⟨by simp [hpc, HostPc.past], fun _ => ⟨hres, .inr ⟨_, rfl⟩⟩, by simp [hpc]⟩ ?_ ?_
    · intro seq hseq
      rw [hseq] at hzero
      cases hzero
    · intro t ht
      rw [accepted] at ht
      rcases List.mem_append.mp ht with ht | ht
      · exact .inl ht
      · obtain rfl := List.mem_singleton.mp ht
        exact .inr ⟨hreq, rfl⟩
    · intro d
      rw [accepted, List.countP_append, hs.once d]
      by_cases hd : d = c
      · subst hd
        rw [Function.update_self, hzero]
        simp [WorkerPool.taskOf, hreq, Submitter.accepts]
      · rw [Function.update_of_ne hd]
        simp [WorkerPool.taskOf, hreq, Ne.symm hd]
  | turned w x before phase submitter accepted after =>
    -- an idle worker took a task or was told to stop; no callback is entered or left
    refine hs.setWorker hinv accepted submitter after (fun t ht => hcomp ▸ ht)
      (fun t c hx => absurd (phase t _ hx) (by simp))
      (fun t c hx => absurd (phase t _ hx) (by simp)) (by rw [hcomp]; exact hs.done) ?_
    intro t ht
    simp [before] at ht
  | same submitter accepted worker =>
    exact hs.setWorkers hinv accepted submitter (by rw [worker]; exact hs.running)
      (by rw [worker]; exact hs.ran) (by rw [hcomp]; exact hs.done)
      (by rw [worker, hcomp]; exact hs.active)

/-- A call enters the pool. -/
theorem Linked.entered (hs : Linked s) {c : Nat} {r : WorkerRun Closure} (hc : c < s.ncalls)
    (hpc : (s.calls c).host = .inserted)
    (hr : s.workers.step (.enter c (s.requestOf c)) = some r) :
    Linked { s.setCall c { s.calls c with host := .submitting } with workers := r } := by
  obtain ⟨hidle, hres⟩ := (hs.submitters c).early (by rw [hpc]; rfl)
  have hinv := hs.workers.step hr
  simp only [WorkerRun.step, hidle] at hr
  obtain rfl := Option.some.inj hr
  -- `submit_write` looks at the shutdown flag before it takes the lock
  let y : Submitter Closure :=
    if s.workers.pool.shutdown then .returned .shutDown else .entered (s.requestOf c)
  have hy : (∃ req, req.callback = .write c ∧ (y = .entered req ∨ y = .waiting req)) ∨
      ∃ r, y = .returned r := by
    by_cases hsd : s.workers.pool.shutdown
    · exact .inr ⟨.shutDown, if_pos hsd⟩
    · exact .inl ⟨s.requestOf c, rfl, .inl (if_neg hsd)⟩
  have hy0 : y.accepts = 0 := by
    by_cases hsd : s.workers.pool.shutdown
    · simp [y, hsd, Submitter.accepts]
    · simp [y, hsd, Submitter.accepts]
  have hcb : ∀ d, ((s.setCall c { s.calls c with host := .submitting }).calls d).cb =
      (s.calls d).cb :=
    fun d => Lts.apply_update_eq WriteCall.cb (by rfl) d
  refine
    { workers := hinv, fresh := ?_, submitters := ?_, task := ?_, once := ?_
      running := by simp only [hcb]; exact hs.running
      ran := by simp only [hcb]; exact hs.ran
      done := by simp only [hcb]; exact hs.done
      active := by simp only [hcb]; exact hs.active }
  · intro d hd
    simp only [WriteRun.setCall] at hd ⊢
    rw [Function.update_of_ne (by omega)]
    exact hs.fresh d hd
  · intro d
    simp only [WriteRun.setCall, WorkerPool.setSubmitter]
    by_cases hd : d = c
    · subst hd
      rw [Function.update_self, Function.update_self]
      exact ⟨by simp [HostPc.past], fun _ => ⟨hres, hy⟩, fun _ h => absurd rfl h⟩
    · rw [Function.update_of_ne hd, Function.update_of_ne hd]
      exact hs.submitters d
  · intro t ht
    obtain ⟨d, hcbt, hd⟩ := hs.task t ht
    have hne : d ≠ c := by rintro rfl; rw [hidle] at hd; cases hd
    exact ⟨d, hcbt, by simp only [WorkerPool.setSubmitter]; rwa [Function.update_of_ne hne]⟩
  · intro d
    simp only [WorkerPool.setSubmitter]
    by_cases hd : d = c
    · subst hd
      rw [Function.update_self]
      exact (hs.once d).trans (by rw [hidle]; exact hy0.symm)
    · rw [Function.update_of_ne hd]
      exact hs.once d

/-- A worker enters the callback of call `c`. -/
theorem Linked.locked (hs : Linked s) {w c : Nat} {t : WriteTask Closure} {r : WorkerRun Closure}
    (hr : s.workers.advance w = some r) (hw : s.workers.pool.worker w = .writing t .dequeued)
    (hcb : t.callback = .write c) :
    Linked { s.setCall c { s.calls c with cb := .entered } with workers := r } := by
  have hwaiting := hs.waiting_of_dequeued hw hcb
  have hlt : c < s.ncalls :=
    hs.lt_of_past (hs.past_of_outstanding (Worker.mem_outstanding.mpr (.inl hw)) hcb)
  have hother : ∀ d, (s.calls d).cb = .finished →
      (Function.update s.calls c { s.calls c with cb := .entered } d).cb = .finished := by
    intro d hd
    rw [Function.update_of_ne (by rintro rfl; rw [hwaiting] at hd; cases hd)]
    exact hd
  obtain ⟨hacc, hsub, -, hadv⟩ := WorkerRun.advance_cases hr
  have hinv := hs.workers.advance hr
  -- the worker had dequeued `t`, so of the accesses only taking the lock is left
  cases hadv with
  | ran u before => rw [hw] at before; cases before
  | bumped u before => rw [hw] at before; cases before
  | other x before =>
    rw [hw] at before
    exact absurd before (by simp [Worker.outstanding])
  | locked u before after completed =>
    rw [hw] at before
    cases before
    have hphase : ∀ v u ph, r.pool.worker v = .writing u ph →
        (v = w ∧ u = t ∧ ph = .locked) ∨ (v ≠ w ∧ s.workers.pool.worker v = .writing u ph) := by
      intro v u ph hv
      rw [after] at hv
      by_cases hvw : v = w
      · subst hvw; rw [Function.update_self] at hv; cases hv; exact .inl ⟨rfl, rfl, rfl⟩
      · rw [Function.update_of_ne hvw] at hv; exact .inr ⟨hvw, hv⟩
    refine
      { workers := hinv, fresh := ?_, submitters := ?_
        task := by simp only [hacc, hsub]; exact hs.task
        once := by simp only [hacc, hsub]; exact hs.once
        running := ?_, ran := ?_, done := ?_, active := ?_ }
    · intro d hd
      simp only [WriteRun.setCall] at hd ⊢
      rw [Function.update_of_ne (by omega)]
      exact hs.fresh d hd
    · simp only [WriteRun.setCall, hsub]
      exact (Function.forall_update_iff s.calls fun d y =>
        SubmitterOk d y (s.workers.pool.submitter d)).mpr
          ⟨{ hs.submitters c with }, fun d _ => hs.submitters d⟩
    · intro v u d hv hcbu
      simp only [WriteRun.setCall]
      by_cases hd : d = c
      · subst hd; rw [Function.update_self]; simp
      · rw [Function.update_of_ne hd]
        rcases hphase v u _ hv with ⟨-, rfl, -⟩ | ⟨-, hv⟩
        · rw [hcb] at hcbu; exact absurd (Closure.write.inj hcbu).symm hd
        · exact hs.running v u d hv hcbu
    · intro v u d hv hcbu
      rcases hphase v u _ hv with ⟨-, -, hph⟩ | ⟨-, hv⟩
      · cases hph
      · exact hother d (hs.ran v u d hv hcbu)
    · intro u d hu hcbu
      rw [completed] at hu
      exact hother d (hs.done u d hu hcbu)
    · intro d hne
      simp only [WriteRun.setCall, completed, after] at hne ⊢
      by_cases hd : d = c
      · subst hd
        exact .inl ⟨w, t, .inl (by rw [Function.update_self]), hcb⟩
      · rw [Function.update_of_ne hd] at hne
        refine (hs.active d hne).imp_left ?_
        rintro ⟨v, u, hv, hcbu⟩
        refine ⟨v, u, ?_, hcbu⟩
        rwa [Function.update_of_ne]
        rintro rfl
        rw [hw] at hv
        rcases hv with hv | hv <;> cases hv

/-- Any other access of a worker with a task. -/
theorem Linked.advanced (hs : Linked s) {w : Nat} {r : WorkerRun Closure}
    (hr : s.workers.advance w = some r)
    (before : ∀ t c, s.workers.pool.worker w = .writing t .dequeued → t.callback ≠ .write c)
    (left : ∀ t c, s.workers.pool.worker w = .writing t .locked → t.callback = .write c →
      (s.calls c).cb = .finished) : Linked { s with workers := r } := by
  obtain ⟨hacc, hsub, -, hadv⟩ := WorkerRun.advance_cases hr
  have hinv := hs.workers.advance hr
  cases hadv with
  | locked t hw after completed =>
    refine hs.setWorker hinv hacc hsub after (fun u hu => completed ▸ hu) ?_ (by simp)
      (by rw [completed]; exact hs.done) (by simp [hw])
    intro u d hx hcb
    cases hx
    exact absurd hcb (before t d hw)
  | ran t hw after completed =>
    -- the callback has returned, which `workerStep` lets happen only when it is finished
    refine hs.setWorker hinv hacc hsub after (fun u hu => completed ▸ hu) (by simp) ?_
      (by rw [completed]; exact hs.done) ?_
    · intro u d hx hcb
      cases hx
      exact left t d hw hcb
    · intro u hu
      simp only [hw, Worker.writing.injEq] at hu
      rcases hu with ⟨rfl, -⟩ | ⟨-, hph⟩
      · exact .inl rfl
      · cases hph
  | bumped t hw after completed =>
    -- the task counts as completed from here on, and its callback has been finished since `ran`
    refine hs.setWorker hinv hacc hsub after ?_ (by simp) (by simp) ?_ ?_
    · intro u hu
      rw [completed]
      exact List.mem_append_left _ hu
    · intro u d hu hcb
      rw [completed] at hu
      rcases List.mem_append.mp hu with hu | hu
      · exact hs.done u d hu hcb
      · obtain rfl := List.mem_singleton.mp hu
        exact hs.ran w u d hw hcb
    · intro u hu
      simp only [hw, Worker.writing.injEq] at hu
      rcases hu with ⟨-, hph⟩ | ⟨rfl, -⟩
      · cases hph
      · exact .inr (by simp [completed])
  | other x hzero hx after completed =>
    refine hs.setWorker hinv hacc hsub after (fun u hu => completed ▸ hu) ?_ ?_
      (by rw [completed]; exact hs.done) ?_
    · rintro t d rfl
      simp [Worker.outstanding] at hx
    · rintro t d rfl
      simp [Worker.outstanding] at hx
    · rintro t (ht | ht) <;> (rw [ht] at hzero; simp [Worker.outstanding] at hzero)

/-! ### The flags of each call -/

/-- `Linked`, and each call for itself. -/
structure Inv (s : WriteRun) : Prop extends Linked s where
  calls : ∀ c, CallOk (s.calls c)

theorem Inv.initial (a : PoolArgs) (n : Nat) (bp : BackpressureConfig) (ids : Nat → UInt64) :
    Inv (start a n bp ids) :=
  ⟨.initial a n bp ids, fun _ => ⟨fun _ => rfl, rfl, rfl, rfl⟩⟩

/-- A callback that was entered is that of a call past its submission. -/
theorem Inv.past_of_cb (hs : Inv s) {c : Nat} (h : (s.calls c).cb ≠ .waiting) :
    (s.calls c).host.past = true ∧ c < s.ncalls := by
  have hpast : (s.calls c).host.past = true := by
    by_contra hpast
    exact h ((hs.calls c).early (by simpa using hpast))
  exact ⟨hpast, hs.lt_of_past hpast⟩

/-- The call whose callback a worker runs. -/
theorem Inv.of_running (hs : Inv s) {w c : Nat} (run : s.runningCall w = some c) :
    (s.calls c).cb ≠ .waiting := by
  obtain ⟨t, hw, hcb⟩ := runningCall_eq_some.mp run
  exact hs.running w t c hw hcb

/-- A step of one call. -/
theorem Inv.setCall (hs : Inv s) {c : Nat} {x : WriteCall} (hworkers : s'.workers = s.workers)
    (hn : s.ncalls ≤ s'.ncalls) (hc : c < s'.ncalls)
    (hcalls : s'.calls = Function.update s.calls c x)
    (hsub : SubmitterOk c x (s.workers.pool.submitter c))
    (hwait : x.cb = .waiting ↔ (s.calls c).cb = .waiting)
    (hfin : (s.calls c).cb = .finished → x.cb = .finished) (hok : CallOk x) : Inv s' := by
  refine ⟨hs.toLinked.setCall hworkers hn hc hcalls hsub hwait hfin, ?_⟩
  rw [hcalls]
  exact (Function.forall_update_iff s.calls fun _ => CallOk).mpr ⟨hok, fun d _ => hs.calls d⟩

/-- A step of the host thread before the submission. -/
theorem Inv.setEarly (hs : Inv s) {c : Nat} {x : WriteCall} (hworkers : s'.workers = s.workers)
    (hn : s.ncalls ≤ s'.ncalls) (hc : c < s'.ncalls)
    (hcalls : s'.calls = Function.update s.calls c x) (hpc : (s.calls c).host.past = false)
    (hpc' : x.host.past = false) (hres : x.result = (s.calls c).result) (hcb : x.cb = .waiting)
    (hflags : flagsOk x.outcome x.io .waiting) : Inv s' := by
  -- nothing was submitted yet, so the callback cannot have been entered
  have hwaiting := (hs.calls c).early hpc
  refine hs.setCall hworkers hn hc hcalls ((hs.submitters c).of_early hpc hpc' hres)
    (by simp [hcb, hwaiting]) (by simp [hwaiting]) ⟨fun _ => hcb, by rw [hcb]; exact hflags⟩

/-- A step of the host thread after the submission. -/
theorem Inv.setLate (hs : Inv s) {c : Nat} {x : WriteCall} (hworkers : s'.workers = s.workers)
    (hn : s.ncalls = s'.ncalls) (hc : c < s.ncalls)
    (hcalls : s'.calls = Function.update s.calls c x)
    (hsub : SubmitterOk c x (s.workers.pool.submitter c)) (hpast : x.host.past = true)
    (hcb : x.cb = (s.calls c).cb) (hflags : flagsOk x.outcome x.io x.cb) : Inv s' :=
  hs.setCall hworkers (Nat.le_of_eq hn) (hn ▸ hc) hcalls hsub (by rw [hcb]) (fun h => hcb.trans h)
    ⟨fun h => (by rw [hpast] at h; cases h), hflags⟩

/-- A step of the callback. -/
theorem Inv.setCallback (hs : Inv s) {w c : Nat} {x : WriteCall} (run : s.runningCall w = some c)
    (hworkers : s'.workers = s.workers) (hn : s.ncalls = s'.ncalls)
    (hcalls : s'.calls = Function.update s.calls c x) (hhost : x.host = (s.calls c).host)
    (hres : x.result = (s.calls c).result) (hne : (s.calls c).cb ≠ .finished)
    (hne' : x.cb ≠ .waiting) (hflags : flagsOk x.outcome x.io x.cb) : Inv s' := by
  have hcb := hs.of_running run
  obtain ⟨hpast, hc⟩ := hs.past_of_cb hcb
  have hsub := hs.submitters c
  refine hs.setCall hworkers (Nat.le_of_eq hn) (hn ▸ hc) hcalls ?_ (by simp [hcb, hne'])
    (fun h => absurd h hne) ⟨fun h => ?_, hflags⟩
  · exact ⟨by rw [hhost, hres]; exact hsub.early, by rw [hhost, hres]; exact hsub.during,
      by rw [hhost, hres]; exact hsub.after⟩
  · rw [hhost, hpast] at h
    cases h

/-- A worker enters the callback of a write. -/
theorem Inv.setEntered (hs : Inv s) {w c : Nat} {t : WriteTask Closure} {r : WorkerRun Closure}
    (hr : s.workers.advance w = some r) (hw : s.workers.pool.worker w = .writing t .dequeued)
    (hcb : t.callback = .write c) :
    Inv { s.setCall c { s.calls c with cb := .entered } with workers := r } := by
  have hwaiting := hs.waiting_of_dequeued hw hcb
  have hpast := hs.past_of_outstanding (Worker.mem_outstanding.mpr (.inl hw)) hcb
  have hok : CallOk { s.calls c with cb := .entered } := by
    refine ⟨fun h => ?_, ?_⟩
    · rw [hpast] at h; cases h
    · have hflags := (hs.calls c).flags
      rw [hwaiting] at hflags
      exact hflags
  exact ⟨hs.toLinked.locked hr hw hcb,
    (Function.forall_update_iff s.calls fun _ => CallOk).mpr ⟨hok, fun d _ => hs.calls d⟩⟩

/-- **Every step keeps the links and the flags.** -/
theorem Inv.step {op : WriteOp} (hs : Inv s) (h : Step s op s') : Inv s' := by
  -- `flagsOk` at the position a rule names
  have hflags : ∀ c pc, (s.calls c).cb = pc → flagsOk (s.calls c).outcome (s.calls c).io pc :=
    fun c pc h => h ▸ (hs.calls c).flags
  cases h with
  | call args =>
    have hpc := hs.next_not_past
    have hres := ((hs.submitters s.ncalls).early hpc).2
    refine hs.setEarly rfl (Nat.le_succ _) (Nat.lt_succ_self _) rfl hpc ?_ hres.symm rfl
      ⟨rfl, rfl, rfl⟩
    by_contra hpast
    have hbuf := HostPc.hasBuffer_of_past (by simpa using hpast)
    rw [args.entry_hasBuffer] at hbuf
    cases hbuf
  | @got c b op p' hc pc acq =>
    have hpc : (s.calls c).host.past = false := by rcases pc with pc | pc <;> (rw [pc]; rfl)
    have hcb := (hs.calls c).early hpc
    exact hs.setEarly rfl (Nat.le_refl _) hc rfl hpc rfl rfl hcb (hflags c _ hcb)
  | @denied c op p' pc' hc pc next acq =>
    have hpc : (s.calls c).host.past = false := by rcases pc with pc | pc <;> (rw [pc]; rfl)
    have hcb := (hs.calls c).early hpc
    refine hs.setEarly rfl (Nat.le_refl _) hc rfl hpc ?_ rfl hcb (hflags c _ hcb)
    rcases next with rfl | rfl | rfl <;> rfl
  | @copied c bytes hc pc len =>
    have hpc : (s.calls c).host.past = false := by rw [pc]; rfl
    have hcb := (hs.calls c).early hpc
    exact hs.setEarly rfl (Nat.le_refl _) hc rfl hpc rfl rfl hcb (hflags c _ hcb)
  | @inserted c hc pc =>
    have hpc : (s.calls c).host.past = false := by rw [pc]; rfl
    have hcb := (hs.calls c).early hpc
    exact hs.setEarly rfl (Nat.le_refl _) hc rfl hpc rfl rfl hcb
      ⟨(hflags c _ hcb).1, rfl, rfl⟩
  | @entered c r hc pc hr =>
    exact ⟨hs.toLinked.entered hc pc hr,
      (Function.forall_update_iff s.calls fun _ => CallOk).mpr
        ⟨⟨nofun, (hs.calls c).flags⟩, fun d _ => hs.calls d⟩⟩
  | @submitted c res hc pc hsub =>
    refine hs.setLate rfl rfl hc rfl ⟨nofun, nofun, fun _ _ => ⟨res, hsub, rfl⟩⟩ rfl rfl ?_
    have := (hs.calls c).flags
    revert this
    cases (s.calls c).cb <;> exact id
  | @counted c hc pc =>
    exact hs.setLate rfl rfl hc rfl
      ((hs.submitters c).of_after (by rw [pc]; rfl) (by simp [pc]) rfl (by simp) rfl) rfl rfl
      (hs.calls c).flags
  | @returned c hc pc =>
    exact hs.setLate rfl rfl hc rfl
      ((hs.submitters c).of_after (by rw [pc]; rfl) (by simp [pc]) rfl (by simp) rfl) rfl rfl
      (hs.calls c).flags
  | @began w c ok run pc =>
    have hf := hflags c _ pc
    exact hs.setCallback run rfl rfl rfl rfl rfl (by simp [pc]) (by simp) hf
  | @answered w c ok run pc =>
    refine hs.setCallback run rfl rfl rfl rfl rfl (by simp [pc]) (by cases ok <;> simp) ?_
    have := hflags c _ pc
    cases ok <;> exact ⟨rfl, this.2⟩
  | @completed w c ok run pc =>
    have := hflags c _ pc
    exact hs.setCallback run rfl rfl rfl rfl rfl (by simp [pc]) (by simp)
      (.inl ⟨this.1, rfl, this.2.2⟩)
  | @failed w c ok run pc =>
    have := hflags c _ pc
    exact hs.setCallback run rfl rfl rfl rfl rfl (by simp [pc]) (by simp)
      ⟨this.1, this.2.1, rfl⟩
  | @coded w c ok run pc =>
    have := hflags c _ pc
    exact hs.setCallback run rfl rfl rfl rfl rfl (by simp [pc]) (by simp)
      ⟨this.1, this.2.1, this.2.2, rfl⟩
  | @marked w c ok run pc =>
    have hf := hflags c _ pc
    exact hs.setCallback run rfl rfl rfl rfl rfl (by simp [pc]) (by simp) hf
  | @firstCode w c ok run pc =>
    exact hs.setCallback run rfl rfl rfl rfl rfl (by simp [pc]) (by simp) (.inr (hflags c _ pc))
  | @gaveBack w c ok run pc =>
    have hf := hflags c _ pc
    exact hs.setCallback run rfl rfl rfl rfl rfl (by simp [pc]) (by simp) hf
  | @subtracted w c ok run pc =>
    have hf := hflags c _ pc
    exact hs.setCallback run rfl rfl rfl rfl rfl (by simp [pc]) (by simp) hf
  | @sectioned op r hr henter hadvance =>
    obtain ⟨hcomp, -, hsec⟩ := WorkerRun.step_sectioned henter hadvance hr
    exact ⟨hs.toLinked.sectioned (hs.workers.step hr) hcomp hsec, hs.calls⟩
  | locked hr hw hcb => exact hs.setEntered hr hw hcb
  | advanced hr before left => exact ⟨hs.toLinked.advanced hr before left, hs.calls⟩
  | otherGot | otherDenied | otherRelease | otherFill | otherHandles | flushBegan | flushRead
  | flushTimeout | flushFinish => exact ⟨{ hs.toLinked with }, hs.calls⟩

end WriteRun

end Amio
