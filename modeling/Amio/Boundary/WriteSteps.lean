import Amio.Boundary.WritePath

/-!
# What a step of the write path can do

The step function of `WritePath` once more as a relation, with one rule for each access to shared
state. Every invariant of the write path is proved by cases on it, so the matches of the step
function are taken apart only here (`step_cases`).
-/

namespace Amio

/-- The call has reached `submit_write`. -/
def HostPc.past : HostPc → Bool
  | .submitting | .submitted | .counted | .returned .ok => true
  | _ => false

/-- The call has acquired its staging buffer. -/
def HostPc.hasBuffer : HostPc → Bool
  | .acquired | .copied | .inserted => true
  | pc => pc.past

/-- The call has copied the host memory. -/
def HostPc.hasCopied : HostPc → Bool
  | .copied | .inserted => true
  | pc => pc.past

/-- The callback has given its buffer back. -/
def CallbackPc.gaveBack : CallbackPc → Bool
  | .released | .finished => true
  | _ => false

namespace WriteRun

variable {s s' : WriteRun}

/-- `op` takes `s` to `s'`. -/
inductive Step (s : WriteRun) : WriteOp → WriteRun → Prop
  | call (args : WriteArgs) : Step s (.call args) (s.beginCall args)
  | got {c b : Nat} {op : HostOp} {p' : StagingPool} (hc : c < s.ncalls)
      (pc : (s.calls c).host = .checked ∨ (s.calls c).host = .blocked)
      (acq : ∃ r alloc, s.staging.acquireOnce r alloc = (.got b, p') ∨
        s.staging.acquireFinal r alloc = (.got b, p')) :
      Step s (.host c op)
        { s.setCall c { s.calls c with host := .acquired, buf := b } with
          staging := p'
          owner := Function.update s.owner b (some (.write c)) }
  | denied {c : Nat} {op : HostOp} {p' : StagingPool} {pc' : HostPc} (hc : c < s.ncalls)
      (pc : (s.calls c).host = .checked ∨ (s.calls c).host = .blocked)
      (next : pc' = .blocked ∨ pc' = .returned .backendFailure ∨
        pc' = .returned .stagingBackpressure)
      (acq : ∃ r alloc res, (s.staging.acquireOnce r alloc = (res, p') ∨
        s.staging.acquireFinal r alloc = (res, p')) ∧ ∀ b, res ≠ .got b) :
      Step s (.host c op) { s.setCall c { s.calls c with host := pc' } with staging := p' }
  | copied {c : Nat} (bytes : List UInt8) (hc : c < s.ncalls)
      (pc : (s.calls c).host = .acquired)
      (len : bytes.length = (s.calls c).args.payloadBytes) :
      Step s (.host c (.copy bytes))
        { s.setCall c { s.calls c with host := .copied, snapshot := bytes } with
          staging := s.staging.fill (s.calls c).buf bytes }
  | inserted {c : Nat} (hc : c < s.ncalls) (pc : (s.calls c).host = .copied) :
      Step s (.host c .insert)
        { s.setCall c { s.calls c with
            host := .inserted
            io := { datasetId := (s.datasetOf c).datasetId
                    token := (s.handles.insert .io (some c)).1 } } with
          handles := (s.handles.insert .io (some c)).2 }
  | entered {c : Nat} {r : WorkerRun Closure} (hc : c < s.ncalls)
      (pc : (s.calls c).host = .inserted)
      (hr : s.workers.step (.enter c (s.requestOf c)) = some r) :
      Step s (.host c .enter)
        { s.setCall c { s.calls c with host := .submitting } with workers := r }
  | submitted {c : Nat} {res : SubmitResult} (hc : c < s.ncalls)
      (pc : (s.calls c).host = .submitting)
      (hsub : s.workers.pool.submitter c = .returned res) :
      Step s (.host c .submitted) (s.setCall c { s.calls c with
        host := .submitted, result := some res, io := { (s.calls c).io with dvSeq := res.seq } })
  | counted {c : Nat} (hc : c < s.ncalls) (pc : (s.calls c).host = .submitted) :
      Step s (.host c .count)
        ((s.setCall c { s.calls c with host := .counted, added := true }).setDataset
          (s.calls c).args.dataset
          { s.datasetOf c with pendingWrites := u64 ((s.datasetOf c).pendingWrites + 1) })
  | returned {c : Nat} (hc : c < s.ncalls) (pc : (s.calls c).host = .counted) :
      Step s (.host c .ret) (s.setCall c { s.calls c with host := .returned .ok })
  | began {w c : Nat} {ok : Bool} (run : s.runningCall w = some c)
      (pc : (s.calls c).cb = .entered) :
      Step s (.callback w ok)
        { s.setCall c { s.calls c with cb := .inDriver } with
          driverLog := s.driverLog ++ [⟨c, s.staging.payload (s.calls c).buf, s.metaOf c⟩] }
  | answered {w c : Nat} {ok : Bool} (run : s.runningCall w = some c)
      (pc : (s.calls c).cb = .inDriver) :
      Step s (.callback w ok) (s.setCall c
        { s.calls c with cb := if ok then .wrote else .threw, outcome := some ok })
  | completed {w c : Nat} {ok : Bool} (run : s.runningCall w = some c)
      (pc : (s.calls c).cb = .wrote) :
      Step s (.callback w ok) (s.setCall c
        { s.calls c with cb := .flagged, io := { (s.calls c).io with completed := true } })
  | failed {w c : Nat} {ok : Bool} (run : s.runningCall w = some c) (pc : (s.calls c).cb = .threw) :
      Step s (.callback w ok) (s.setCall c
        { s.calls c with cb := .markedFailed, io := { (s.calls c).io with failed := true } })
  | coded {w c : Nat} {ok : Bool} (run : s.runningCall w = some c)
      (pc : (s.calls c).cb = .markedFailed) :
      Step s (.callback w ok) (s.setCall c
        { s.calls c with
          cb := .coded, io := { (s.calls c).io with failureCode := .backendFailure } })
  | marked {w c : Nat} {ok : Bool} (run : s.runningCall w = some c) (pc : (s.calls c).cb = .coded) :
      Step s (.callback w ok)
        ((s.setCall c { s.calls c with cb := .markedDataset }).setDataset (s.calls c).args.dataset
          { s.datasetOf c with hasFailure := true })
  | firstCode {w c : Nat} {ok : Bool} (run : s.runningCall w = some c)
      (pc : (s.calls c).cb = .markedDataset) :
      Step s (.callback w ok)
        ((s.setCall c { s.calls c with cb := .flagged }).setDataset (s.calls c).args.dataset
          { s.datasetOf c with
            firstFailureCode :=
              if (s.datasetOf c).firstFailureCode = .ok then .backendFailure
              else (s.datasetOf c).firstFailureCode })
  | gaveBack {w c : Nat} {ok : Bool} (run : s.runningCall w = some c)
      (pc : (s.calls c).cb = .flagged) :
      Step s (.callback w ok)
        { s.setCall c { s.calls c with cb := .released } with
          staging := s.staging.release (s.calls c).buf
          owner := Function.update s.owner (s.calls c).buf none }
  | subtracted {w c : Nat} {ok : Bool} (run : s.runningCall w = some c)
      (pc : (s.calls c).cb = .released) :
      Step s (.callback w ok)
        ((s.setCall c { s.calls c with cb := .finished }).setDataset (s.calls c).args.dataset
          { s.datasetOf c with
            pendingWrites := u64 ((s.datasetOf c).pendingWrites + (2 ^ 64 - 1)) })
  | sectioned {op : WorkerOp Closure} {r : WorkerRun Closure} (hr : s.workers.step op = some r)
      (henter : ∀ c req, op ≠ .enter c req) (hadvance : ∀ w, op ≠ .advance w) :
      Step s (.worker op) { s with workers := r }
  | locked {w c : Nat} {t : WriteTask Closure} {r : WorkerRun Closure}
      (hr : s.workers.advance w = some r) (before : s.workers.pool.worker w = .writing t .dequeued)
      (hcb : t.callback = .write c) :
      Step s (.worker (.advance w))
        { s.setCall c { s.calls c with cb := .entered } with workers := r }
  | advanced {w : Nat} {r : WorkerRun Closure} (hr : s.workers.advance w = some r)
      (before : ∀ t c, s.workers.pool.worker w = .writing t .dequeued → t.callback ≠ .write c)
      (left : ∀ t c, s.workers.pool.worker w = .writing t .locked → t.callback = .write c →
        (s.calls c).cb = .finished) :
      Step s (.worker (.advance w)) { s with workers := r }
  | otherGot {r b : Nat} {alloc final : Bool} {p' : StagingPool}
      (acq : s.staging.acquireOnce r alloc = (.got b, p') ∨
        s.staging.acquireFinal r alloc = (.got b, p')) :
      Step s (.other (.acquire r alloc final))
        { s with staging := p', owner := Function.update s.owner b (some .other) }
  | otherDenied {r : Nat} {alloc final : Bool} {p' : StagingPool} {res : StagingPool.Acquired}
      (acq : s.staging.acquireOnce r alloc = (res, p') ∨ s.staging.acquireFinal r alloc = (res, p'))
      (hres : ∀ b, res ≠ .got b) :
      Step s (.other (.acquire r alloc final)) { s with staging := p' }
  | otherRelease {b : Nat} (own : s.owner b = some .other) :
      Step s (.other (.release b))
        { s with staging := s.staging.release b, owner := Function.update s.owner b none }
  | otherFill {b : Nat} (bytes : List UInt8) (own : s.owner b = some .other) :
      Step s (.other (.fill b bytes)) { s with staging := s.staging.fill b bytes }
  | otherHandles {op : OtherOp} (t : HandleTable Nat) : Step s (.other op) { s with handles := t }
  | flushBegan (d : Nat) : Step s (.flush d) (s.beginFlush d)
  | flushRead {f : Nat} (hf : f < s.nflushes)
      (pc : (s.flushes f).pc = .entered ∨ (s.flushes f).pc = .polling) :
      Step s (.flushStep f .read)
        { s with
          flushes := Function.update s.flushes f
            { s.flushes f with
              pc := if (s.datasets (s.flushes f).dataset).pendingWrites = 0 then .drained
                else .polling } }
  | flushTimeout {f : Nat} (hf : f < s.nflushes) (pc : (s.flushes f).pc = .polling) :
      Step s (.flushStep f .timeout)
        { s with
          flushes := Function.update s.flushes f { s.flushes f with pc := .returned .timeout } }
  | flushFinish {f : Nat} (hf : f < s.nflushes) (pc : (s.flushes f).pc = .drained) :
      Step s (.flushStep f .finish)
        { s with
          flushes := Function.update s.flushes f
            { s.flushes f with
              pc := .returned (if (s.datasets (s.flushes f).dataset).hasFailure then
                (s.datasets (s.flushes f).dataset).firstFailureCode else .ok) } }

/-! ### The relation is the step function -/

/-- The call whose callback a worker runs. -/
theorem runningCall_eq_some {w c : Nat} :
    s.runningCall w = some c ↔
      ∃ t, s.workers.pool.worker w = .writing t .locked ∧ t.callback = .write c := by
  unfold runningCall
  split
  · next h => simp [h]
  · next hne =>
    refine ⟨nofun, ?_⟩
    rintro ⟨⟨k, q, id, cb⟩, hw, rfl⟩
    exact absurd hw (hne k q id c)

/-- The call whose callback it enters next. -/
theorem nextCall_eq_some {w c : Nat} :
    s.nextCall w = some c ↔
      ∃ t, s.workers.pool.worker w = .writing t .dequeued ∧ t.callback = .write c := by
  unfold nextCall
  split
  · next h => simp [h]
  · next hne =>
    refine ⟨nofun, ?_⟩
    rintro ⟨⟨k, q, id, cb⟩, hw, rfl⟩
    exact absurd hw (hne k q id c)

/-- What an attempt to acquire leads to. -/
theorem afterAcquire_cases {c : Nat} {op : HostOp} {onBlocked : HostPc} {r : Nat} {alloc : Bool}
    {res : StagingPool.Acquired × StagingPool} (hc : c < s.ncalls)
    (pc : (s.calls c).host = .checked ∨ (s.calls c).host = .blocked)
    (hblocked : onBlocked = .blocked ∨ onBlocked = .returned .stagingBackpressure)
    (acq : s.staging.acquireOnce r alloc = res ∨ s.staging.acquireFinal r alloc = res) :
    Step s (.host c op) (s.afterAcquire c onBlocked res) := by
  obtain ⟨x, p'⟩ := res
  cases x with
  | got b => exact .got hc pc ⟨r, alloc, acq⟩
  | threw => exact .denied hc pc (.inr (.inl rfl)) ⟨r, alloc, .threw, acq, by simp⟩
  | blocked =>
    refine .denied hc pc ?_ ⟨r, alloc, .blocked, acq, by simp⟩
    exact hblocked.imp_right .inr

/-- The steps of the host. -/
theorem hostStep_cases {c : Nat} {op : HostOp} (hc : c < s.ncalls)
    (h : s.hostStep c op = some s') : Step s (.host c op) s' := by
  unfold hostStep at h
  split at h
  -- the buffer: the first attempt, the attempts while it waits, and the last one
  · next alloc pc =>
    obtain rfl := Option.some.inj h
    exact afterAcquire_cases hc (.inl pc) (.inl rfl) (.inl rfl)
  · next alloc pc =>
    obtain rfl := Option.some.inj h
    exact afterAcquire_cases hc (.inr pc) (.inl rfl) (.inl rfl)
  · next alloc pc =>
    obtain rfl := Option.some.inj h
    exact afterAcquire_cases hc (.inr pc) (.inr rfl) (.inr rfl)
  -- the copy and the handle
  · next bytes pc =>
    simp only [Option.ite_none_right_eq_some, Option.some.injEq] at h
    obtain ⟨hlen, rfl⟩ := h
    exact .copied bytes hc pc hlen
  · next pc =>
    obtain rfl := Option.some.inj h
    exact .inserted hc pc
  · next pc =>
    obtain ⟨r, hr, rfl⟩ := Option.map_eq_some_iff.mp h
    exact .entered hc pc hr
  · next pc =>
    split at h
    · next res hsub =>
      obtain rfl := Option.some.inj h
      exact .submitted hc pc hsub
    · cases h
  · next pc =>
    obtain rfl := Option.some.inj h
    exact .counted hc pc
  · next pc =>
    obtain rfl := Option.some.inj h
    exact .returned hc pc
  · cases h

/-- The steps of a callback. -/
theorem callback_cases {w c : Nat} {ok : Bool} (run : s.runningCall w = some c)
    (h : s.runCallback c ok = some s') : Step s (.callback w ok) s' := by
  unfold runCallback at h
  simp only at h
  split at h
  case h_1 => cases h
  case h_2 pc => exact Option.some.inj h ▸ .began run pc
  case h_3 pc => exact Option.some.inj h ▸ .answered run pc
  case h_4 pc => exact Option.some.inj h ▸ .completed run pc
  case h_5 pc => exact Option.some.inj h ▸ .failed run pc
  case h_6 pc => exact Option.some.inj h ▸ .coded run pc
  case h_7 pc => exact Option.some.inj h ▸ .marked run pc
  case h_8 pc => exact Option.some.inj h ▸ .firstCode run pc
  case h_9 pc => exact Option.some.inj h ▸ .gaveBack run pc
  case h_10 pc => exact Option.some.inj h ▸ .subtracted run pc
  case h_11 => cases h

/-- The steps of the pool. -/
theorem workerStep_cases {op : WorkerOp Closure} (h : s.workerStep op = some s') :
    Step s (.worker op) s' := by
  unfold workerStep at h
  split at h
  · cases h
  · split at h
    · obtain ⟨r, hr, rfl⟩ := Option.map_eq_some_iff.mp h
      exact .sectioned hr (by simp) (by simp)
    · cases h
  · next w =>
    simp only [Option.ite_none_right_eq_some, Option.map_eq_some_iff] at h
    obtain ⟨hleft, r, hr, rfl⟩ := h
    -- whether this access starts a callback decides the rule
    cases hnext : s.nextCall w with
    | some c =>
      obtain ⟨t, ht, hcb⟩ := nextCall_eq_some.mp hnext
      exact .locked hr ht hcb
    | none =>
      refine .advanced hr (fun t c ht hcb => ?_) (fun t c ht hcb => ?_)
      · rw [nextCall_eq_some.mpr ⟨t, ht, hcb⟩] at hnext
        cases hnext
      · rw [runningCall_eq_some.mpr ⟨t, ht, hcb⟩] at hleft
        simpa using hleft
  · next henter _ hadvance =>
    obtain ⟨r, hr, rfl⟩ := Option.map_eq_some_iff.mp h
    exact .sectioned hr henter hadvance

/-- The steps of the other users of the staging pool. -/
theorem otherStep_cases {op : OtherOp} (h : s.otherStep op = some s') : Step s (.other op) s' := by
  cases op with
  | acquire r alloc final =>
    simp only [otherStep] at h
    -- both kinds of attempt fall under one rule, so the flag is forgotten first
    have hacq : ∀ res, (if final then s.staging.acquireFinal r alloc
          else s.staging.acquireOnce r alloc) = res →
        s.staging.acquireOnce r alloc = res ∨ s.staging.acquireFinal r alloc = res := by
      intro res
      cases final
      · exact .inl
      · exact .inr
    generalize hres : (if final then s.staging.acquireFinal r alloc
      else s.staging.acquireOnce r alloc) = res at h
    obtain ⟨x, p'⟩ := res
    cases x with
    | got b =>
      obtain rfl := Option.some.inj h
      exact .otherGot (hacq _ hres)
    | threw =>
      obtain rfl := Option.some.inj h
      exact .otherDenied (hacq _ hres) (by simp)
    | blocked =>
      obtain rfl := Option.some.inj h
      exact .otherDenied (hacq _ hres) (by simp)
  | release b =>
    simp only [otherStep, Option.ite_none_right_eq_some, Option.some.injEq] at h
    obtain ⟨hown, rfl⟩ := h
    exact .otherRelease hown
  | fill b bytes =>
    simp only [otherStep, Option.ite_none_right_eq_some, Option.some.injEq] at h
    obtain ⟨hown, rfl⟩ := h
    exact .otherFill bytes hown
  | insertHandle kind payload =>
    simp only [otherStep, Option.ite_none_left_eq_some, Option.some.injEq] at h
    obtain ⟨-, rfl⟩ := h
    exact .otherHandles _
  | releaseHandle token kind =>
    simp only [otherStep, Option.ite_none_left_eq_some, Option.some.injEq] at h
    obtain ⟨-, rfl⟩ := h
    exact .otherHandles _

/-- The steps of a flush. -/
theorem flushStep_cases {f : Nat} {op : FlushOp} (hf : f < s.nflushes)
    (h : s.flushStep f op = some s') : Step s (.flushStep f op) s' := by
  unfold flushStep at h
  simp only at h
  split at h
  · next pc =>
    obtain rfl := Option.some.inj h
    exact .flushRead hf (.inl pc)
  · next pc =>
    obtain rfl := Option.some.inj h
    exact .flushRead hf (.inr pc)
  · next pc =>
    obtain rfl := Option.some.inj h
    exact .flushTimeout hf pc
  · next pc =>
    obtain rfl := Option.some.inj h
    exact .flushFinish hf pc
  · cases h

/-- **Every step is one of the rules.** -/
theorem step_cases {op : WriteOp} (h : s.step op = some s') : Step s op s' := by
  cases op with
  | call args =>
    obtain rfl := Option.some.inj h
    exact .call args
  | host c op =>
    simp only [step, Option.ite_none_right_eq_some] at h
    exact hostStep_cases h.1 h.2
  | callback w ok =>
    obtain ⟨c, hc, hrun⟩ := Option.bind_eq_some_iff.mp h
    exact callback_cases hc hrun
  | worker op => exact workerStep_cases h
  | other op => exact otherStep_cases h
  | flush d =>
    obtain rfl := Option.some.inj h
    exact .flushBegan d
  | flushStep f op =>
    simp only [step, Option.ite_none_right_eq_some] at h
    exact flushStep_cases h.1 h.2

end WriteRun

end Amio
