import Amio.Boundary.WriteEffects

/-!
# Flush as a barrier

`write` increments `pending_writes` after its task is visible to the workers, so the callback's
decrement may come first. Then the counter wraps, or it takes away the count of another write that
is still pending and lets a `flush` return early.

In a run in which each write's increment comes before its decrement, the counter is the number of
writes that were counted and whose callback has not finished (`Counted.pending`). It does not
wrap: such a write still owns its staging buffer or has its callback inside a worker, so there are
no more of them than buffers and workers (`Bounded.pending_le`).
-/

namespace Amio

open Lts (tally)

namespace WriteRun

variable {s s' : WriteRun}

/-! ### Counting calls -/

/-- `x` is a write to dataset `d` that was counted and whose callback has not finished. -/
def pendingOf (d : Nat) (x : WriteCall) : Nat :=
  if x.args.dataset = d ∧ x.added = true ∧ x.cb ≠ .finished then 1 else 0

/-- `x` is a write to dataset `d` that returned `AMIO_OK` and whose callback has not finished. -/
def unfinishedOf (d : Nat) (x : WriteCall) : Nat :=
  if x.args.dataset = d ∧ x.host = .returned .ok ∧ x.cb ≠ .finished then 1 else 0

/-- `x` has done its `fetch_add` on dataset `d`. -/
def addedOf (d : Nat) (x : WriteCall) : Nat := if x.args.dataset = d ∧ x.added = true then 1 else 0

/-- The callback of `x` has done its `fetch_sub` on dataset `d`. -/
def finishedOf (d : Nat) (x : WriteCall) : Nat :=
  if x.args.dataset = d ∧ x.cb = .finished then 1 else 0

/-- What `flush` promises. -/
structure FlushBarrier (s : WriteRun) : Prop where
  /-- `pending_writes` is not smaller than the number of writes that returned `AMIO_OK` and are not
  finished … -/
  covers : ∀ d, tally (unfinishedOf d) s.calls s.ncalls ≤ (s.datasets d).pendingWrites
  /-- … and has never wrapped: it is the number of increments less the number of decrements. -/
  no_wrap : ∀ d, (s.datasets d).pendingWrites + tally (finishedOf d) s.calls s.ncalls =
    tally (addedOf d) s.calls s.ncalls
  /-- When a `flush` has returned `AMIO_OK`, the driver is done with every write to the dataset that
  had returned before the `flush` began. -/
  barrier : ∀ f, f < s.nflushes → (s.flushes f).pc = .returned .ok →
    ∀ c ∈ (s.flushes f).before, (s.calls c).outcome.isSome

/-- A decrement of `pending_writes` comes after the increment of the same write. -/
def subtractsAfterAdd (s : WriteRun) : WriteOp → Bool
  | .callback w _ =>
    match s.runningCall w with
    | some c => decide ((s.calls c).cb = .released → (s.calls c).added = true)
    | none => true
  | _ => true

/-! ### The number of pending writes is bounded -/

/-- `added` is where the call is. -/
def AddedOk (x : WriteCall) : Prop :=
  x.added = true ↔ x.host = .counted ∨ x.host = .returned .ok

/-- A call that is counted is past `submit_write`. -/
theorem AddedOk.past {x : WriteCall} (h : AddedOk x) (hadd : x.added = true) :
    x.host.past = true := by
  rcases h.mp hadd with h | h <;> (rw [h]; rfl)

/-- The constructor's bounds and the positions of the increments. -/
structure Bounded (s : WriteRun) : Prop where
  threads : s.workers.pool.threadCount ≤ kMaxThreadCount
  added : ∀ c, AddedOk (s.calls c)

/-- A call whose flag agrees with its position. -/
theorem Bounded.setCall {c : Nat} {x : WriteCall} (hs : Bounded s)
    (hthreads : s'.workers.pool.threadCount = s.workers.pool.threadCount)
    (hcalls : s'.calls = Function.update s.calls c x) (hx : AddedOk x) : Bounded s' := by
  refine ⟨hthreads ▸ hs.threads, ?_⟩
  rw [hcalls]
  exact (Function.forall_update_iff s.calls fun _ => AddedOk).mpr ⟨hx, fun d _ => hs.added d⟩

/-- Every step keeps flags and positions in agreement. -/
theorem Bounded.step {op : WriteOp} (hi : Inv s) (hs : Bounded s) (h : Step s op s') :
    Bounded s' := by
  have hnot : ∀ {c : Nat}, (s.calls c).host ≠ .counted → (s.calls c).host ≠ .returned .ok →
      (s.calls c).added ≠ true := fun h h' hadd => ((hs.added _).mp hadd).elim h h'
  cases h with
  -- before it is counted, a call has added nothing
  | call args =>
    refine hs.setCall rfl rfl ⟨nofun, ?_⟩
    simp only
    split
    · nofun
    · next hne => rintro (h | h); cases h; exact absurd (HostPc.returned.inj h) hne
  | @got c b op p' hc pc =>
    refine hs.setCall rfl rfl ⟨fun h => absurd h (hnot ?_ ?_), nofun⟩
    all_goals rcases pc with pc | pc <;> simp [pc]
  | @denied c op p' pc' hc pc next =>
    refine hs.setCall rfl rfl ⟨fun h => absurd h (hnot ?_ ?_), ?_⟩
    · rcases pc with pc | pc <;> simp [pc]
    · rcases pc with pc | pc <;> simp [pc]
    · rcases next with rfl | rfl | rfl <;> simp
  | @copied c bytes hc pc | @inserted c hc pc | @submitted c res hc pc hsub =>
    exact hs.setCall rfl rfl ⟨fun h => absurd h (hnot (by simp [pc]) (by simp [pc])), nofun⟩
  -- the pool that is entered keeps its threads
  | @entered c r hc pc hr =>
    refine hs.setCall ?_ rfl ⟨fun h => absurd h (hnot (by simp [pc]) (by simp [pc])), nofun⟩
    have hidle := ((hi.submitters c).early (by rw [pc]; rfl)).1
    simp only [WorkerRun.step, hidle] at hr
    obtain rfl := Option.some.inj hr
    rfl
  -- the one step that adds
  | @counted c hc pc => exact hs.setCall rfl rfl ⟨fun _ => .inl rfl, fun _ => rfl⟩
  | @returned c hc pc =>
    exact hs.setCall rfl rfl ⟨fun _ => .inr rfl, fun _ => (hs.added c).mpr (.inl pc)⟩
  -- the worker changes neither flag
  | @began w c | @answered w c | @completed w c | @failed w c | @coded w c | @marked w c
  | @firstCode w c | @gaveBack w c | @subtracted w c => exact hs.setCall rfl rfl (hs.added c)
  | sectioned hr henter hadvance =>
    exact ⟨(WorkerRun.step_sectioned henter hadvance hr).2.1 ▸ hs.threads, hs.added⟩
  | @locked w c t r hr =>
    exact hs.setCall (WorkerRun.advance_cases hr).2.2.1 rfl (hs.added c)
  | advanced hr => exact ⟨(WorkerRun.advance_cases hr).2.2.1 ▸ hs.threads, hs.added⟩
  | otherGot | otherDenied | otherRelease | otherFill | otherHandles | flushBegan | flushRead
  | flushTimeout | flushFinish => exact ⟨hs.threads, hs.added⟩

/-- **No more pending writes than buffers and workers.** A write that was counted and is not
finished owns its buffer, or is between its release and its decrement inside a worker. -/
theorem Bounded.pending_le (hs : Good s) (hb : Bounded s) (d : Nat) :
    tally (pendingOf d) s.calls s.ncalls ≤ kMaxBufferCount + kMaxThreadCount := by
  classical
  have hpend : ∀ {c : Nat}, pendingOf d (s.calls c) = 1 →
      (s.calls c).added = true ∧ (s.calls c).cb ≠ .finished := by
    intro c h
    unfold pendingOf at h
    split at h
    · next hc => exact hc.2
    · cases h
  -- the worker inside the callback of a call that gave its buffer back
  have hworker : ∀ c, ∃ w, pendingOf d (s.calls c) = 1 → (s.calls c).cb.gaveBack = true →
      w < s.workers.pool.threadCount ∧ s.runningCall w = some c := by
    intro c
    by_cases hc : pendingOf d (s.calls c) = 1 ∧ (s.calls c).cb.gaveBack = true
    · have hne : (s.calls c).cb ≠ .waiting := by
        intro h; rw [h] at hc; cases hc.2
      rcases hs.active c hne with ⟨w, t, hw | hw, hcb⟩ | ⟨t, ht, hcb⟩
      · exact ⟨w, fun _ _ => ⟨hs.workers.lt_of_ne_idle (by simp [hw]),
          runningCall_eq_some.mpr ⟨t, hw, hcb⟩⟩⟩
      · exact absurd (hs.ran w t c hw hcb) (hpend hc.1).2
      · exact absurd (hs.done t c ht hcb) (hpend hc.1).2
    · exact ⟨0, fun h h' => absurd ⟨h, h'⟩ hc⟩
  choose worker hworker using hworker
  -- an injection of the pending writes into buffers and workers
  let φ : Nat → Nat := fun c =>
    if (s.calls c).cb.gaveBack then s.staging.size + worker c else (s.calls c).buf
  have howns : ∀ {c : Nat}, pendingOf d (s.calls c) = 1 → (s.calls c).cb.gaveBack = false →
      s.owner (s.calls c).buf = some (.write c) := fun {c} h hg =>
    (hs.call c).owns ⟨HostPc.hasBuffer_of_past ((hb.added c).past (hpend h).1), hg⟩
  have hlt : ∀ {c : Nat}, pendingOf d (s.calls c) = 1 → (s.calls c).cb.gaveBack = false →
      (s.calls c).buf < s.staging.size := fun h hg => (hs.owned.held _ _ (howns h hg)).1
  have hle : tally (pendingOf d) s.calls s.ncalls ≤
      s.staging.size + s.workers.pool.threadCount := by
    refine Lts.tally_le_of_injOn (fun x => by unfold pendingOf; split <;> omega) φ ?_ ?_
    · intro c _ h
      simp only [φ]
      split
      · next hg =>
        have := (hworker c h hg).1
        omega
      · next hg =>
        have := hlt h (by simpa using hg)
        omega
    · intro c _ c' _ h h' heq
      simp only [φ] at heq
      split at heq <;> split at heq
      -- one worker runs one callback
      · next hg hg' =>
        have hw : worker c = worker c' := by omega
        have hc := (hworker c h hg).2
        rw [hw, (hworker c' h' hg').2] at hc
        exact (Option.some.inj hc).symm
      · next hg hg' =>
        have := hlt h' (by simpa using hg')
        omega
      · next hg hg' =>
        have := hlt h (by simpa using hg)
        omega
      · next hg hg' =>
        have hc := howns h (by simpa using hg)
        rw [heq, howns h' (by simpa using hg')] at hc
        exact (Holder.write.inj (Option.some.inj hc)).symm
  have hsize := hs.owned.wf.size_le.trans hs.owned.wf.max_le
  have hthreads := hb.threads
  omega

/-! ### The counter -/

/-- In a run whose decrements come after their increments: a finished write was counted, and
`pending_writes` is the number of counted writes that are not finished. -/
structure Counted (s : WriteRun) : Prop where
  order : ∀ c, (s.calls c).cb = .finished → (s.calls c).added = true
  pending : ∀ d, (s.datasets d).pendingWrites = tally (pendingOf d) s.calls s.ncalls

/-- A call that counts as much as before. -/
theorem Counted.setCall {c : Nat} {x : WriteCall} (hs : Counted s) (hn : s'.ncalls = s.ncalls)
    (hcalls : s'.calls = Function.update s.calls c x)
    (hdata : ∀ d, (s'.datasets d).pendingWrites = (s.datasets d).pendingWrites)
    (horder : x.cb = .finished → x.added = true)
    (hsame : ∀ d, pendingOf d x = pendingOf d (s.calls c)) : Counted s' := by
  refine ⟨fun e => ?_, fun d => ?_⟩
  · rw [hcalls]
    by_cases he : e = c
    · subst he; rw [Function.update_self]; exact horder
    · rw [Function.update_of_ne he]; exact hs.order e
  · rw [hdata, hn, hcalls, Lts.tally_update_same (hsame d)]
    exact hs.pending d

/-- A dataset record changes and its counter does not. -/
theorem pendingWrites_update {d e : Nat} {x : DatasetRecord}
    (hx : x.pendingWrites = (s.datasets e).pendingWrites) :
    (Function.update s.datasets e x d).pendingWrites = (s.datasets d).pendingWrites :=
  Lts.apply_update_eq DatasetRecord.pendingWrites hx d

/-- The increment. The count after it is below the bound, so the addition does not wrap. -/
theorem Counted.increment {c : Nat} (hs : Counted s) (hadded : ∀ c, AddedOk (s.calls c))
    (hc : c < s.ncalls) (pc : (s.calls c).host = .submitted)
    (hle : ∀ d, tally (pendingOf d) (Function.update s.calls c
      { s.calls c with host := .counted, added := true }) s.ncalls < 2 ^ 64) :
    Counted ((s.setCall c { s.calls c with host := .counted, added := true }).setDataset
      (s.calls c).args.dataset
      { s.datasetOf c with pendingWrites := u64 ((s.datasetOf c).pendingWrites + 1) }) := by
  -- the call is counted here for the first time
  have hnot : (s.calls c).added ≠ true := fun h => by
    rcases (hadded c).mp h with h | h <;> (rw [pc] at h; cases h)
  -- with the order of the run, its callback cannot have finished
  have hcb : (s.calls c).cb ≠ .finished := fun h => hnot (hs.order c h)
  have hzero : ∀ d, pendingOf d (s.calls c) = 0 := fun d => by simp [pendingOf, hnot]
  refine ⟨fun e => ?_, fun d => ?_⟩
  · simp only [setDataset, WriteRun.setCall]
    by_cases he : e = c
    · subst he; rw [Function.update_self]; exact fun _ => rfl
    · rw [Function.update_of_ne he]; exact hs.order e
  · have hadd := Lts.tally_update_add (g := pendingOf d) (f := s.calls)
      (b := { s.calls c with host := .counted, added := true }) hc (hzero d)
    have hlt := hle d
    have hp := hs.pending d
    simp only [setDataset, WriteRun.setCall]
    rw [hadd] at hlt ⊢
    by_cases hd : d = (s.calls c).args.dataset
    · subst hd
      have hone : pendingOf (s.calls c).args.dataset
          { s.calls c with host := .counted, added := true } = 1 := by simp [pendingOf, hcb]
      rw [hone] at hlt ⊢
      rw [Function.update_self]
      simp only [datasetOf, hp, u64]
      exact Nat.mod_eq_of_lt hlt
    · have hother : pendingOf d { s.calls c with host := .counted, added := true } = 0 := by
        simp [pendingOf, Ne.symm hd]
      rw [hother, Function.update_of_ne hd]
      exact hp

/-- The decrement, of a write that was counted: the counter is not zero, so it does not wrap. -/
theorem Counted.decrement {c : Nat} (hs : Counted s) (hc : c < s.ncalls)
    (pc : (s.calls c).cb = .released) (hadd : (s.calls c).added = true)
    (hle : ∀ d, tally (pendingOf d) s.calls s.ncalls < 2 ^ 64) :
    Counted ((s.setCall c { s.calls c with cb := .finished }).setDataset (s.calls c).args.dataset
      { s.datasetOf c with
        pendingWrites := u64 ((s.datasetOf c).pendingWrites + (2 ^ 64 - 1)) }) := by
  have hgone : ∀ d, pendingOf d { s.calls c with cb := .finished } = 0 := fun d => by
    simp [pendingOf]
  refine ⟨fun e => ?_, fun d => ?_⟩
  · simp only [setDataset, WriteRun.setCall]
    by_cases he : e = c
    · subst he; rw [Function.update_self]; exact fun _ => hadd
    · rw [Function.update_of_ne he]; exact hs.order e
  · have hsub := Lts.tally_update_sub (g := pendingOf d) (f := s.calls)
      (b := { s.calls c with cb := .finished }) hc (hgone d)
    have hlt := hle d
    have hp := hs.pending d
    simp only [setDataset, WriteRun.setCall]
    by_cases hd : d = (s.calls c).args.dataset
    · subst hd
      have hone : pendingOf (s.calls c).args.dataset (s.calls c) = 1 := by
        simp [pendingOf, hadd, pc]
      rw [hone] at hsub
      rw [Function.update_self]
      simp only [datasetOf, hp, u64]
      -- adding 2^64 - 1 to a positive count is subtracting one
      generalize tally (pendingOf (s.calls c).args.dataset) s.calls s.ncalls = n at hsub hlt ⊢
      subst hsub
      rw [show ∀ n : Nat, n + 1 + (2 ^ 64 - 1) = n + 2 ^ 64 from fun n => by omega,
        Nat.add_mod_right]
      exact Nat.mod_eq_of_lt (Nat.lt_of_succ_lt hlt)
    · have hother : pendingOf d (s.calls c) = 0 := by simp [pendingOf, Ne.symm hd]
      rw [hother] at hsub
      rw [Function.update_of_ne hd, hp, ← hsub]
      rfl

/-- **Every step that subtracts after it adds keeps the counter.** -/
theorem Counted.step {op : WriteOp} (hg : Good s) (hb : Bounded s) (hg' : Good s')
    (hb' : Bounded s') (hs : Counted s) (hok : s.subtractsAfterAdd op = true) (h : Step s op s') :
    Counted s' := by
  -- the bound on pending writes, before and after the step, is what rules out wrapping
  have hlt : ∀ d, tally (pendingOf d) s.calls s.ncalls < 2 ^ 64 := fun d =>
    Nat.lt_of_le_of_lt (hb.pending_le hg d) (by decide)
  have hlt' : ∀ d, tally (pendingOf d) s'.calls s'.ncalls < 2 ^ 64 := fun d =>
    Nat.lt_of_le_of_lt (hb'.pending_le hg' d) (by decide)
  cases h with
  | call args =>
    refine ⟨fun e => ?_, fun d => ?_⟩
    · simp only [beginCall, WriteRun.setCall]
      by_cases he : e = s.ncalls
      · subst he; rw [Function.update_self]; simp
      · rw [Function.update_of_ne he]; exact hs.order e
    · simp only [beginCall, WriteRun.setCall]
      rw [Lts.tally_succ, Lts.tally_update_of_le (Nat.le_refl _), Function.update_self,
        ← hs.pending d]
      simp [pendingOf]
  | @got c | @denied c | @copied c | @inserted c | @entered c | @submitted c | @returned c =>
    exact hs.setCall rfl rfl (fun _ => rfl) (hs.order c) fun _ => rfl
  | counted hc pc => exact hs.increment hb.added hc pc hlt'
  | @began w c ok run pc | @completed w c ok run pc | @failed w c ok run pc | @coded w c ok run pc
  | @gaveBack w c ok run pc =>
    exact hs.setCall rfl rfl (fun _ => rfl) (by simp) fun d => by simp [pendingOf, pc]
  | @answered w c ok run pc =>
    refine hs.setCall rfl rfl (fun _ => rfl) ?_ fun d => ?_
    · cases ok <;> simp
    · cases ok <;> simp [pendingOf, pc]
  | @marked w c ok run pc | @firstCode w c ok run pc =>
    exact hs.setCall rfl rfl (fun d => pendingWrites_update rfl) (by simp) fun d => by
      simp [pendingOf, pc]
  | @subtracted w c ok run pc =>
    have hadd : (s.calls c).added = true := by
      simpa [subtractsAfterAdd, run, pc] using hok
    exact hs.decrement (hg.past_of_cb (hg.of_running run)).2 pc hadd hlt
  | @locked w c t r hr hw hcb =>
    have hwaiting := hg.waiting_of_dequeued hw hcb
    exact hs.setCall rfl rfl (fun _ => rfl) (by simp) fun d => by simp [pendingOf, hwaiting]
  | sectioned | advanced | otherGot | otherDenied | otherRelease | otherFill | otherHandles
  | flushBegan | flushRead | flushTimeout | flushFinish => exact ⟨hs.order, hs.pending⟩

/-! ### Flushes -/

/-- A write that has returned stays so, and so does one that has finished. -/
theorem Step.returned_stable {op : WriteOp} (hi : Inv s) (h : Step s op s') {c : Nat}
    (hc : c < s.ncalls) (hret : (s.calls c).host = .returned .ok) :
    (s'.calls c).host = .returned .ok ∧ (s'.calls c).args = (s.calls c).args ∧
      ((s.calls c).cb = .finished → (s'.calls c).cb = .finished) := by
  -- only steps of the call itself can change it, and a returned call has only its callback
  let P : WriteCall → Prop := fun y => y.host = .returned .ok ∧ y.args = (s.calls c).args ∧
    ((s.calls c).cb = .finished → y.cb = .finished)
  have hset : ∀ (e : Nat) (x : WriteCall), (e = c → P x) →
      P (Function.update s.calls e x c) := by
    intro e x hx
    by_cases he : c = e
    · rw [← he, Function.update_self]; exact hx he.symm
    · rw [Function.update_of_ne he]; exact ⟨hret, rfl, id⟩
  cases h with
  | call args => exact hset _ _ fun he => by omega
  | @got e b op p' he pc | @denied e op p' pc' he pc =>
    refine hset _ _ ?_
    rintro rfl
    rcases pc with pc | pc <;> (rw [hret] at pc; cases pc)
  | @copied e bytes he pc | @inserted e he pc | @entered e r he pc | @submitted e res he pc
  | @counted e he pc | @returned e he pc =>
    refine hset _ _ ?_
    rintro rfl
    rw [hret] at pc
    cases pc
  | @began w e ok run pc | @answered w e ok run pc | @completed w e ok run pc
  | @failed w e ok run pc | @coded w e ok run pc | @marked w e ok run pc
  | @firstCode w e ok run pc | @gaveBack w e ok run pc =>
    refine hset _ _ ?_
    rintro rfl
    exact ⟨hret, rfl, fun h => by rw [h] at pc; cases pc⟩
  | @subtracted w e ok run pc =>
    refine hset _ _ ?_
    rintro rfl
    exact ⟨hret, rfl, fun _ => rfl⟩
  | @locked w e t r hr hw hcb =>
    refine hset _ _ ?_
    rintro rfl
    exact ⟨hret, rfl, fun h => by rw [hi.waiting_of_dequeued hw hcb] at h; cases h⟩
  | sectioned | advanced | otherGot | otherDenied | otherRelease | otherFill | otherHandles
  | flushBegan | flushRead | flushTimeout | flushFinish => exact ⟨hret, rfl, id⟩

theorem Step.ncalls_le {op : WriteOp} (h : Step s op s') : s.ncalls ≤ s'.ncalls := by
  cases h with
  | call args => exact Nat.le_succ _
  | _ => exact Nat.le_refl _

/-- The writes a flush waits for had returned, and are finished once it has seen the counter at
zero. -/
structure FlushOk (s : WriteRun) (f : Flush) : Prop where
  before : ∀ c ∈ f.before, c < s.ncalls ∧ (s.calls c).host = .returned .ok ∧
    (s.calls c).args.dataset = f.dataset
  drained : f.pc = .drained ∨ f.pc = .returned .ok → ∀ c ∈ f.before, (s.calls c).cb = .finished

def Flushed (s : WriteRun) : Prop := ∀ f, f < s.nflushes → FlushOk s (s.flushes f)

/-- What a flush has seen stays true. -/
theorem FlushOk.step {op : WriteOp} {f : Flush} (hi : Inv s) (h : Step s op s')
    (hf : FlushOk s f) : FlushOk s' f := by
  have hstable : ∀ {c : Nat}, c ∈ f.before → _ := fun {c} hc =>
    h.returned_stable hi (hf.before c hc).1 (hf.before c hc).2.1
  refine ⟨fun c hc => ?_, fun hpc c hc => (hstable hc).2.2 (hf.drained hpc c hc)⟩
  obtain ⟨hlt, -, hdata⟩ := hf.before c hc
  exact ⟨Nat.lt_of_lt_of_le hlt h.ncalls_le, (hstable hc).1, by rw [(hstable hc).2.1, hdata]⟩

/-- When the counter is zero every write that returned is finished. -/
theorem Counted.finished_of_zero (hs : Counted s) (hb : Bounded s) {c : Nat} (hc : c < s.ncalls)
    (hret : (s.calls c).host = .returned .ok)
    (hzero : (s.datasets (s.calls c).args.dataset).pendingWrites = 0) :
    (s.calls c).cb = .finished := by
  rw [hs.pending] at hzero
  have hnone := Lts.eq_zero_of_tally hzero hc
  by_contra hne
  have hadd := (hb.added c).mpr (.inr hret)
  simp [pendingOf, hadd, hne] at hnone

/-- Every step keeps what the flushes have seen. -/
theorem Flushed.step {op : WriteOp} (hi : Inv s) (hb : Bounded s) (hcnt : Counted s)
    (hs : Flushed s) (h : Step s op s') : Flushed s' := by
  have hkeep : ∀ f, f < s.nflushes → FlushOk s' (s.flushes f) := fun f hf => (hs f hf).step hi h
  have hset : ∀ (g : Nat) (x : Flush), FlushOk s' x →
      ∀ f, f < s.nflushes → FlushOk s' (Function.update s.flushes g x f) := by
    intro g x hx f hf
    by_cases hfg : f = g
    · subst hfg; rw [Function.update_self]; exact hx
    · rw [Function.update_of_ne hfg]; exact hkeep f hf
  cases h with
  | flushBegan d =>
    intro f hf
    simp only [beginFlush] at hf ⊢
    by_cases hfg : f = s.nflushes
    · subst hfg
      rw [Function.update_self]
      refine ⟨fun c hc => ?_, fun hpc => by rcases hpc with hpc | hpc <;> cases hpc⟩
      simp only [List.mem_filter, List.mem_range, decide_eq_true_eq] at hc
      exact ⟨hc.1, hc.2.2, hc.2.1⟩
    · rw [Function.update_of_ne hfg]
      exact hkeep f (by omega)
  | @flushRead g hg pc =>
    -- the flush leaves the loop on a zero it has read in this very state
    have hok := hs g hg
    refine hset _ _ ⟨hok.before, fun hpc c hc => ?_⟩
    obtain ⟨hlt, hret, hdata⟩ := hok.before c hc
    refine hcnt.finished_of_zero hb hlt hret ?_
    rw [hdata]
    by_contra hne
    simp [hne] at hpc
  | @flushTimeout g hg pc =>
    exact hset _ _ ⟨(hs g hg).before, fun hpc => by rcases hpc with hpc | hpc <;> cases hpc⟩
  | @flushFinish g hg pc => exact hset _ _ ⟨(hs g hg).before, fun _ => (hs g hg).drained (.inl pc)⟩
  | _ => exact hkeep

/-! ### The barrier -/

/-- The invariant of a run whose decrements come after their increments. -/
structure Barred (s : WriteRun) : Prop extends Good s where
  bounded : Bounded s
  counted : Counted s
  flushed : Flushed s

/-- A flush is a barrier in every run that subtracts after it adds. -/
theorem Barred.of_reach (h : system.Reach (fun s op => s.subtractsAfterAdd op = true) s) :
    Barred s := by
  refine Lts.System.Reach.invariant ?_ ?_ h
  · rintro _ ⟨a, n, bp, ids, hn, rfl⟩
    exact ⟨.initial a n bp ids, ⟨hn, fun _ => ⟨nofun, by rintro (h | h) <;> cases h⟩⟩,
      ⟨nofun, fun _ => rfl⟩, fun _ h => absurd h (Nat.not_lt_zero _)⟩
  · intro s op s' hs hok hstep
    have h := step_cases hstep
    have hg' := hs.toGood.step h
    have hb' := hs.bounded.step hs.toInv h
    exact ⟨hg', hb', hs.counted.step hs.toGood hs.bounded hg' hb' hok h,
      hs.flushed.step hs.toInv hs.bounded hs.counted h⟩

/-- **Flush is a barrier** in every run in which each write's decrement of `pending_writes` comes
after its increment, for any number of writers, workers and flushes. -/
theorem flush_barrier (h : system.Reach (fun s op => s.subtractsAfterAdd op = true) s) :
    FlushBarrier s := by
  have hs := Barred.of_reach h
  refine ⟨fun d => ?_, fun d => ?_, fun f hf hpc c hc => ?_⟩
  · rw [hs.counted.pending]
    refine Lts.tally_mono fun c _ => ?_
    have hadd := (hs.bounded.added c).mpr
    unfold unfinishedOf pendingOf
    by_cases hun : (s.calls c).args.dataset = d ∧ (s.calls c).host = .returned .ok ∧
        (s.calls c).cb ≠ .finished
    · rw [if_pos hun, if_pos ⟨hun.1, hadd (.inr hun.2.1), hun.2.2⟩]
    · rw [if_neg hun]; exact Nat.zero_le _
  · rw [hs.counted.pending]
    -- counted = pending + finished, since a finished write was counted
    refine (Lts.tally_add fun c _ => ?_).symm
    have horder := hs.counted.order c
    unfold addedOf pendingOf finishedOf
    by_cases hd : (s.calls c).args.dataset = d <;> by_cases hcb : (s.calls c).cb = .finished <;>
      by_cases hadd : (s.calls c).added = true <;> simp_all
  · have hfin := (hs.flushed f hf).drained (.inr hpc) c hc
    have hflags := (hs.calls c).flags
    rw [hfin] at hflags
    rcases hflags with ⟨hout, -⟩ | ⟨hout, -⟩ <;> (rw [hout]; rfl)

/-- One write, executed after it returned, and a flush of its dataset. -/
def flushedWriteOps : List WriteOp :=
  prepareOps 0 [118] 42 ++ submitOps 0 ++ executeOps 0 true ++
    [.flush 0, .flushStep 0 .read, .flushStep 0 .finish]

theorem flush_barrier_of_one_write :
    ∃ s, system.replay (fun s op => s.subtractsAfterAdd op = true) (byteCore 1 {}) flushedWriteOps =
        some s ∧
      (s.flushes 0).pc = .returned .ok ∧ (s.flushes 0).before = [0] ∧ FlushBarrier s :=
  ⟨_, rfl, rfl, rfl, flush_barrier (Lts.System.Reach.of_replay flushedWriteOps
    (.init (byteCore_init 1 (by decide) {})) rfl)⟩

/-- The second write is executed before its `fetch_add`, while the first is about to be. -/
def earlyFlushOps : List WriteOp :=
  prepareOps 0 [118] 42 ++ submitOps 0 ++ [.worker (.turn 0 0), .worker (.advance 0)] ++
    prepareOps 1 [119] 43 ++ [.host 1 .enter, .worker (.lock 1)] ++ executeOps 1 true ++
    [.flush 0, .flushStep 0 .read, .flushStep 0 .finish]

/-- A write is executed before its `fetch_add`. -/
def wrappingOps : List WriteOp :=
  prepareOps 0 [118] 42 ++ [.host 0 .enter, .worker (.lock 0)] ++ executeOps 0 true

/-- A decrement that comes before its increment takes away the count of another write, so that a
`flush` returns `AMIO_OK` before the driver was asked for it; and with no other write it wraps the
counter. -/
theorem early_decrement_breaks_flush :
    (∃ s, system.replay (fun _ _ => True) (byteCore 2 {}) earlyFlushOps = some s ∧
      system.Reachable s ∧ (s.flushes 0).pc = .returned .ok ∧ (s.flushes 0).before = [0] ∧
      (s.datasets 0).pendingWrites = 0 ∧ s.driverLog.map (·.call) = [1] ∧ ¬ FlushBarrier s) ∧
    ∃ s, system.replay (fun _ _ => True) (byteCore 1 {}) wrappingOps = some s ∧
      system.Reachable s ∧ (s.datasets 0).pendingWrites = 2 ^ 64 - 1 ∧ ¬ FlushBarrier s :=
  ⟨⟨_, rfl, Lts.System.Reachable.of_replay earlyFlushOps (byteCore_init 2 (by decide) {}) rfl, rfl,
      rfl, rfl, rfl, fun h => Bool.noConfusion (h.barrier 0 Nat.one_pos rfl 0 List.mem_cons_self)⟩,
    ⟨_, rfl, Lts.System.Reachable.of_replay wrappingOps (byteCore_init 1 (by decide) {}) rfl, rfl,
      fun h => absurd (h.no_wrap 0) (by decide)⟩⟩

end WriteRun

end Amio
