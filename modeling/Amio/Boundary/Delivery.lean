import Amio.Boundary.Isolation
import Amio.Lib.Traces

/-!
# What reaches the driver

A task carries the key under which its call was submitted, and the metadata that its callback hands
to the driver spell the same key (`Keyed`). So the calls of the driver for a key are, in order, the
callbacks of the tasks that the pool has completed for it, and of the one in flight if that has got
so far (`Ordered`).

Both are carried over to a core with prefetch queues and host memory, where the result is
`delivered_in_order`: the `i`-th time that the driver is asked to write under a key, it is for the
call that `submit_write` gave the number `i`, and with the bytes that the host had passed.
-/

namespace Amio

open Traces (part)

/-- The key that the metadata of a driver call spell. -/
def DriverWrite.dvKey (w : DriverWrite) : DatasetVariableKey :=
  ⟨w.varMeta.datasetId, w.varMeta.variableId⟩

namespace WriteRun

variable {s s' : WriteRun}

/-- The key under which call `c` is submitted. -/
def keyOf (s : WriteRun) (c : Nat) : DatasetVariableKey := (s.requestOf c).dvKey

/-! ### Tasks and their keys -/

/-- Submissions under way and accepted tasks have the key of their call. -/
structure Keyed (s : WriteRun) : Prop where
  busy : ∀ c req, (s.workers.pool.submitter c = .entered req ∨
    s.workers.pool.submitter c = .waiting req) → req.dvKey = s.keyOf c
  task : ∀ t ∈ s.workers.accepted, ∀ c, t.callback = .write c → t.dvKey = s.keyOf c

/-- A call does not change its arguments, nor a dataset its id. -/
theorem Step.keyOf {op : WriteOp} (h : Step s op s') {c : Nat} (hc : c < s.ncalls) :
    s'.keyOf c = s.keyOf c := by
  have hset : ∀ (e : Nat) (x : WriteCall), x.args = (s.calls e).args →
      (Function.update s.calls e x c).args = (s.calls c).args :=
    fun e x hx => Lts.apply_update_eq WriteCall.args hx c
  have hargs : (s'.calls c).args = (s.calls c).args := by
    cases h with
    | call args => exact congrArg WriteCall.args (Function.update_of_ne (by omega) _ _)
    | sectioned | advanced | otherGot | otherDenied | otherRelease | otherFill | otherHandles
    | flushBegan | flushRead | flushTimeout | flushFinish => rfl
    | _ => exact hset _ _ rfl
  simp only [WriteRun.keyOf, requestOf, datasetOf, hargs, h.datasetId]

/-- The call of an accepted task has reached `submit_write`. -/
theorem Linked.lt_of_accepted (hs : Linked s) {t : WriteTask Closure} {c : Nat}
    (ht : t ∈ s.workers.accepted) (hcb : t.callback = .write c) : c < s.ncalls := by
  obtain ⟨c', hcb', hsub⟩ := hs.task t ht
  rw [hcb] at hcb'
  obtain rfl := Closure.write.inj hcb'
  refine hs.lt_of_past ?_
  by_contra hpast
  have := ((hs.submitters c).early (by simpa using hpast)).1
  rw [this] at hsub
  cases hsub

/-- A submission under way is of a call that was made. -/
theorem Linked.lt_of_busy (hs : Linked s) {c : Nat} {req : WriteRequest Closure}
    (hbusy : s.workers.pool.submitter c = .entered req ∨
      s.workers.pool.submitter c = .waiting req) : c < s.ncalls :=
  hs.lt_of_past (by rw [((hs.submitters c).of_busy hbusy).1]; rfl)

/-- A step that neither enters a submission nor accepts a task. -/
theorem Keyed.frame (hs : Keyed s) (hi : Linked s)
    (hkeys : ∀ c, c < s.ncalls → s'.keyOf c = s.keyOf c)
    (hbusy : ∀ c req, (s'.workers.pool.submitter c = .entered req ∨
        s'.workers.pool.submitter c = .waiting req) →
      s.workers.pool.submitter c = .entered req ∨ s.workers.pool.submitter c = .waiting req)
    (hacc : s'.workers.accepted = s.workers.accepted) : Keyed s' where
  busy := fun c req h => by
    have hold := hbusy c req h
    rw [hkeys c (hi.lt_of_busy hold), hs.busy c req hold]
  task := fun t ht c hcb => by
    rw [hacc] at ht
    rw [hkeys c (hi.lt_of_accepted ht hcb), hs.task t ht c hcb]

/-- A submission ends. -/
theorem busy_of_returned {f f' : Nat → Submitter Closure} {e : Nat} {r : SubmitResult}
    (hf : f' = Function.update f e (.returned r)) (c : Nat) (req : WriteRequest Closure)
    (h : f' c = .entered req ∨ f' c = .waiting req) : f c = .entered req ∨ f c = .waiting req := by
  subst hf
  by_cases hc : c = e
  · subst hc
    rw [Function.update_self] at h
    simp at h
  · rwa [Function.update_of_ne hc] at h

/-- **Every step keeps the tasks with their keys.** -/
theorem Keyed.step {op : WriteOp} (hi : Inv s) (hs : Keyed s) (h : Step s op s') : Keyed s' := by
  have hkeys : ∀ c, c < s.ncalls → s'.keyOf c = s.keyOf c := fun c hc => h.keyOf hc
  cases h with
  | @entered c r hc pc hr =>
    -- the request is made of what the key is made of
    cases WorkerRun.step_cases hr with
    | enters d req free =>
      refine ⟨fun d req' hbusy => ?_, fun t ht d hcb => ?_⟩
      · by_cases hd : d = c
        · subst hd
          simp only [WorkerPool.setSubmitter, Function.update_self] at hbusy
          have hreq : req' = s.requestOf d := by
            split at hbusy <;> simp at hbusy
            exact hbusy.symm
          subst hreq
          exact (hkeys d hc).symm
        · simp only [WorkerPool.setSubmitter, Function.update_of_ne hd] at hbusy
          rw [hkeys d (hi.lt_of_busy hbusy), hs.busy d req' hbusy]
      · rw [hkeys d (hi.lt_of_accepted ht hcb), hs.task t ht d hcb]
  | @sectioned op r hr henter hadvance =>
    obtain ⟨-, -, hsec⟩ := WorkerRun.step_sectioned henter hadvance hr
    cases hsec with
    | waits c req before after accepted =>
      refine hs.frame hi.toLinked hkeys (fun d req' h => ?_) accepted
      rw [after] at h
      by_cases hd : d = c
      · subst hd
        rw [Function.update_self] at h
        simp only [reduceCtorEq, Submitter.waiting.injEq, false_or] at h
        exact .inl (h ▸ before)
      · rwa [Function.update_of_ne hd] at h
    | refused c req result before refusal after accepted =>
      exact hs.frame hi.toLinked hkeys (busy_of_returned after) accepted
    | admitted c req before refusal after accepted =>
      have hbusy := busy_of_returned after
      refine ⟨fun d req' h => hs.busy d req' (hbusy d req' h), fun t ht d hcb => ?_⟩
      rw [accepted, List.mem_append, List.mem_singleton] at ht
      rcases ht with ht | rfl
      · exact hs.task t ht d hcb
      -- the new task is that of the submission under way
      · have hreq := ((hi.submitters c).of_busy before).2.2
        obtain rfl : c = d := Closure.write.inj (hreq.symm.trans hcb)
        exact hs.busy c req before
    | turned w x before phase submitter accepted =>
      exact hs.frame hi.toLinked hkeys (fun d req' h => by rwa [submitter] at h) accepted
    | same submitter accepted =>
      exact hs.frame hi.toLinked hkeys (fun d req' h => by rwa [submitter] at h) accepted
  | locked hr | advanced hr =>
    obtain ⟨hacc, hsub, -⟩ := WorkerRun.advance_cases hr
    exact hs.frame hi.toLinked hkeys (fun d req' h => by rwa [hsub] at h) hacc
  | _ => exact hs.frame hi.toLinked hkeys (fun _ _ => id) rfl

/-! ### The log of the driver -/

/-- Worker `w` runs the callback of call `c`, which has asked the driver. -/
def InDriver (s : WriteRun) (w : Nat) (t : WriteTask Closure) (c : Nat) : Prop :=
  (s.workers.pool.worker w = .writing t .locked ∨ s.workers.pool.worker w = .writing t .ran) ∧
    t.callback = .write c ∧ (s.calls c).cb.asked = true

/-- The calls of the driver for a key. -/
def driverCalls (s : WriteRun) (k : DatasetVariableKey) : List DriverWrite :=
  part DriverWrite.dvKey s.driverLog k

/-- The calls of the driver for a key, by what asked. -/
def askedFor (s : WriteRun) (k : DatasetVariableKey) : List Closure :=
  (s.driverCalls k).map fun w => .write w.call

/-- The completed tasks of a key, by what they ran. -/
def completedFor (s : WriteRun) (k : DatasetVariableKey) : List Closure :=
  (part WriteTask.dvKey s.workers.completed k).map (·.callback)

/-- The driver was asked for the completed tasks of a key, in their order, and for the one in flight
if that has got so far. -/
def Ordered (s : WriteRun) : Prop :=
  ∀ k, (∃ w t c, s.InDriver w t c ∧ t.dvKey = k ∧
      s.askedFor k = s.completedFor k ++ [t.callback]) ∨
    ((∀ w t c, s.InDriver w t c → t.dvKey ≠ k) ∧ s.askedFor k = s.completedFor k)

/-- A worker in the driver has its task in flight. -/
theorem InDriver.outstanding {w c : Nat} {t : WriteTask Closure} (h : s.InDriver w t c) :
    t ∈ (s.workers.pool.worker w).outstanding :=
  Worker.mem_outstanding.mpr (.inr h.1)

/-- The task in flight of a key. -/
theorem Inv.inDriver_unique (hi : Inv s) {w w' c c' : Nat} {t t' : WriteTask Closure}
    (h : s.InDriver w t c) (h' : s.InDriver w' t' c') (hkey : t.dvKey = t'.dvKey) :
    w = w' ∧ t = t' ∧ c = c' := by
  obtain rfl := hi.workers.in_flight_unique h.outstanding h'.outstanding hkey
  obtain rfl : t = t' := by
    rcases h.1 with hw | hw <;> rcases h'.1 with hw' | hw' <;>
      exact (Worker.writing.inj (hw.symm.trans hw')).1
  exact ⟨rfl, rfl, Closure.write.inj (h.2.1.symm.trans h'.2.1)⟩

/-- A step that neither asks the driver nor completes a task. -/
theorem Ordered.frame (hs : Ordered s) (hlog : s'.driverLog = s.driverLog)
    (hcomp : s'.workers.completed = s.workers.completed)
    (hin : ∀ w t c, s'.InDriver w t c ↔ s.InDriver w t c) : Ordered s' := by
  simp only [Ordered, askedFor, driverCalls, completedFor, hlog, hcomp, hin]
  exact hs

/-- A step of one call that does not ask the driver. -/
theorem Ordered.setCall (hs : Ordered s) {c : Nat} {x : WriteCall}
    (hworkers : s'.workers = s.workers) (hlog : s'.driverLog = s.driverLog)
    (hcalls : s'.calls = Function.update s.calls c x)
    (hasked : x.cb.asked = (s.calls c).cb.asked) : Ordered s' := by
  refine hs.frame hlog (by rw [hworkers]) fun w t d => ?_
  have hd : (s'.calls d).cb.asked = (s.calls d).cb.asked := by
    rw [hcalls]
    exact Lts.apply_update_eq (fun y : WriteCall => y.cb.asked) hasked d
  simp only [InDriver, hworkers, hd]

/-- The driver is asked: the task in flight of its key gets ahead of the completed ones. -/
theorem Ordered.began (hi : Inv s) (hk : Keyed s) (hs : Ordered s) {w c : Nat}
    (run : s.runningCall w = some c) (pc : (s.calls c).cb = .entered) :
    Ordered { s.setCall c { s.calls c with cb := .inDriver } with
      driverLog := s.driverLog ++ [⟨c, s.staging.payload (s.calls c).buf, s.metaOf c⟩] } := by
  obtain ⟨t, hw, hcb⟩ := runningCall_eq_some.mp run
  have hmem : t ∈ (s.workers.pool.worker w).outstanding :=
    Worker.mem_outstanding.mpr (.inr (.inl hw))
  have hkey : t.dvKey = s.keyOf c := hk.task t (hi.accepted_of_outstanding hmem) c hcb
  generalize hs' : ({ s.setCall c { s.calls c with cb := .inDriver } with
      driverLog := s.driverLog ++ [⟨c, s.staging.payload (s.calls c).buf, s.metaOf c⟩] } :
    WriteRun) = s'
  have hcalls : s'.calls = Function.update s.calls c { s.calls c with cb := .inDriver } := by
    rw [← hs']; rfl
  have hworkers : s'.workers = s.workers := by rw [← hs']; rfl
  have hasked : ∀ k, s'.askedFor k =
      s.askedFor k ++ if t.dvKey = k then [t.callback] else [] := by
    intro k
    rw [askedFor, driverCalls, ← hs', Traces.part_append, List.map_append]
    refine congrArg₂ _ rfl ?_
    have hlogged : (⟨c, s.staging.payload (s.calls c).buf, s.metaOf c⟩ : DriverWrite).dvKey =
        t.dvKey := hkey.symm
    split
    · next heq => rw [part, List.filter_cons_of_pos (by simp [hlogged, heq]), hcb]; rfl
    · next hne => rw [part, List.filter_cons_of_neg (by simp [hlogged, hne])]; rfl
  have hcompleted : ∀ k, s'.completedFor k = s.completedFor k := fun k => by
    rw [completedFor, hworkers]; rfl
  -- the call was not in the driver before, and the others stay where they are
  have hin : ∀ v u d, s'.InDriver v u d ↔ s.InDriver v u d ∨ (v = w ∧ u = t ∧ d = c) := by
    intro v u d
    simp only [InDriver, hworkers, hcalls]
    by_cases hd : d = c
    · subst hd
      simp only [Function.update_self, pc, CallbackPc.asked, and_true, Bool.false_eq_true,
        and_false, false_or]
      constructor
      · rintro ⟨hv, hcbu⟩
        have hmem' : u ∈ (s.workers.pool.worker v).outstanding :=
          Worker.mem_outstanding.mpr (.inr hv)
        obtain rfl := hi.workers.outstanding_unique (hi.once_le d) hmem' hcbu hmem hcb
        rcases hv with hv | hv
        · exact ⟨rfl, (Worker.writing.inj (hv.symm.trans hw)).1⟩
        · rw [hw] at hv; cases hv
      · rintro ⟨rfl, rfl⟩
        exact ⟨.inl hw, hcb⟩
    · rw [Function.update_of_ne hd]
      simp [hd]
  have hnot : ∀ v u d, s.InDriver v u d → u.dvKey ≠ t.dvKey := by
    intro v u d hin' heq
    obtain rfl := hi.workers.in_flight_unique hin'.outstanding hmem heq
    have hut : u = t := by
      rcases hin'.1 with hv | hv
      · exact (Worker.writing.inj (hv.symm.trans hw)).1
      · rw [hw] at hv; cases hv
    subst hut
    obtain rfl := Closure.write.inj (hin'.2.1.symm.trans hcb)
    have := hin'.2.2
    rw [pc] at this
    cases this
  intro k
  rw [hasked, hcompleted]
  by_cases hk' : t.dvKey = k
  · rw [if_pos hk']
    left
    refine ⟨w, t, c, (hin w t c).mpr (.inr ⟨rfl, rfl, rfl⟩), hk', ?_⟩
    rcases hs k with ⟨v, u, d, hin', hu, -⟩ | ⟨-, heq⟩
    · exact absurd (hu.trans hk'.symm) (hnot v u d hin')
    · rw [heq]
  · rw [if_neg hk', List.append_nil]
    rcases hs k with ⟨v, u, d, hin', hu, heq⟩ | ⟨hnone, heq⟩
    · exact .inl ⟨v, u, d, (hin v u d).mpr (.inl hin'), hu, heq⟩
    · refine .inr ⟨fun v u d h => ?_, heq⟩
      rcases (hin v u d).mp h with h | ⟨rfl, rfl, rfl⟩
      · exact hnone v u d h
      · exact hk'

/-- A worker takes its key's lock and enters a callback, which has asked nothing yet. -/
theorem Ordered.locked (hi : Inv s) (hs : Ordered s) {w c : Nat} {t : WriteTask Closure}
    {r : WorkerRun Closure} (hr : s.workers.advance w = some r)
    (hw : s.workers.pool.worker w = .writing t .dequeued) (hcb : t.callback = .write c) :
    Ordered { s.setCall c { s.calls c with cb := .entered } with workers := r } := by
  have hwaiting := hi.waiting_of_dequeued hw hcb
  obtain ⟨-, -, -, hadv⟩ := WorkerRun.advance_cases hr
  cases hadv with
  | ran u before => rw [hw] at before; cases before
  | bumped u before => rw [hw] at before; cases before
  | other x before => rw [hw] at before; exact absurd before (by simp [Worker.outstanding])
  -- only the lock takes a worker from the dequeue to the callback
  | locked u before after completed =>
    rw [hw] at before
    cases before
    refine hs.frame rfl completed fun v u d => ?_
    have hasked : ((s.setCall c { s.calls c with cb := .entered }).calls d).cb.asked =
        (s.calls d).cb.asked :=
      Lts.apply_update_eq (fun y : WriteCall => y.cb.asked) (by rw [hwaiting]; rfl) d
    simp only [InDriver, hasked, after]
    by_cases hv : v = w
    · -- before, the worker was not there yet; now it is, but its call has not asked
      subst hv
      rw [Function.update_self, hw]
      simp only [Worker.writing.injEq, reduceCtorEq, and_false, or_self, false_and, iff_false]
      rintro ⟨⟨rfl, -⟩ | h, hcbu, hask⟩
      · obtain rfl := Closure.write.inj (hcb.symm.trans hcbu)
        rw [hwaiting] at hask
        cases hask
      · exact h.elim
    · rw [Function.update_of_ne hv]

/-- Any other access of a worker with a task. When it advances `exec_seq`, the task in flight
becomes a completed one. -/
theorem Ordered.advanced (hi : Inv s) (hs : Ordered s) {w : Nat} {r : WorkerRun Closure}
    (hr : s.workers.advance w = some r)
    (before : ∀ t c, s.workers.pool.worker w = .writing t .dequeued → t.callback ≠ .write c) :
    Ordered { s with workers := r } := by
  obtain ⟨-, -, -, hadv⟩ := WorkerRun.advance_cases hr
  cases hadv with
  -- only a callback of a write counts as in the driver, and this one is of a read or a flush
  | locked t hw after completed =>
    refine hs.frame rfl completed fun v u d => ?_
    simp only [InDriver, after]
    by_cases hv : v = w
    · subst hv
      rw [Function.update_self, hw]
      simp only [Worker.writing.injEq, reduceCtorEq, and_false, or_self, false_and, iff_false]
      rintro ⟨⟨rfl, -⟩ | h, hcbu, -⟩
      · exact before t d hw hcbu
      · exact h.elim
    · rw [Function.update_of_ne hv]
  | ran t hw after completed =>
    refine hs.frame rfl completed fun v u d => ?_
    simp only [InDriver, after]
    by_cases hv : v = w
    · subst hv
      rw [Function.update_self, hw]
      simp
    · rw [Function.update_of_ne hv]
  | other x hzero hx after completed =>
    refine hs.frame rfl completed fun v u d => ?_
    simp only [InDriver, after]
    by_cases hv : v = w
    · subst hv
      rw [Function.update_self]
      refine and_congr_left fun _ => iff_of_false ?_ ?_
      · rintro (h | h) <;> (rw [h] at hx; simp [Worker.outstanding] at hx)
      · rintro (h | h) <;> (rw [h] at hzero; simp [Worker.outstanding] at hzero)
    · rw [Function.update_of_ne hv]
  -- the task in flight is completed now, so its call moves from one list to the other
  | bumped t hw after completed =>
    have hmem : t ∈ (s.workers.pool.worker w).outstanding :=
      Worker.mem_outstanding.mpr (.inr (.inr hw))
    obtain ⟨c, hcb, -⟩ := hi.task t (hi.accepted_of_outstanding hmem)
    have hinw : s.InDriver w t c := ⟨.inr hw, hcb, by rw [hi.ran w t c hw hcb]; rfl⟩
    have hin : ∀ v u d, WriteRun.InDriver { s with workers := r } v u d ↔
        v ≠ w ∧ s.InDriver v u d := by
      intro v u d
      simp only [InDriver, after]
      by_cases hv : v = w
      · subst hv
        rw [Function.update_self]
        simp
      · rw [Function.update_of_ne hv]
        simp [hv]
    intro k
    have hcompleted : WriteRun.completedFor { s with workers := r } k =
        s.completedFor k ++ if t.dvKey = k then [t.callback] else [] := by
      simp only [completedFor, completed, Traces.part_append, List.map_append]
      refine congrArg₂ _ rfl ?_
      split
      · next heq => rw [part, List.filter_cons_of_pos (by simp [heq])]; rfl
      · next hne => rw [part, List.filter_cons_of_neg (by simp [hne])]; rfl
    rw [hcompleted]
    -- the key of the task, where the worker was the one in the driver, or another key
    by_cases hk : t.dvKey = k
    · right
      refine ⟨fun v u d h hu => ?_, ?_⟩
      · obtain ⟨hne, h⟩ := (hin v u d).mp h
        exact hne (hi.inDriver_unique h hinw (hu.trans hk.symm)).1
      · rcases hs k with ⟨v, u, d, h, hu, heq⟩ | ⟨hnone, -⟩
        · obtain ⟨rfl, rfl, rfl⟩ := hi.inDriver_unique h hinw (hu.trans hk.symm)
          rw [if_pos hk]
          exact heq
        · exact absurd hk (hnone w t c hinw)
    · rw [if_neg hk, List.append_nil]
      rcases hs k with ⟨v, u, d, h, hu, heq⟩ | ⟨hnone, heq⟩
      · refine .inl ⟨v, u, d, (hin v u d).mpr ⟨?_, h⟩, hu, heq⟩
        rintro rfl
        rcases h.1 with hv | hv
        · rw [hw] at hv; cases hv
        · rw [hw] at hv; cases hv; exact hk hu
      · exact .inr ⟨fun v u d h => hnone v u d ((hin v u d).mp h).2, heq⟩

/-- **Every step keeps the log of the driver in order.** -/
theorem Ordered.step {op : WriteOp} (hi : Inv s) (hk : Keyed s) (hs : Ordered s)
    (h : Step s op s') : Ordered s' := by
  -- outside the driver the log and the order of the completed tasks stay
  cases h with
  | call args =>
    have hwaiting := (hi.calls s.ncalls).early hi.next_not_past
    exact hs.setCall rfl rfl rfl (by rw [hwaiting])
  | got | denied | copied | inserted | submitted | counted | returned =>
    exact hs.setCall rfl rfl rfl rfl
  | @entered c r hc pc hr =>
    cases WorkerRun.step_cases hr
    have hcall : Ordered (s.setCall c { s.calls c with host := .submitting }) :=
      hs.setCall rfl rfl rfl rfl
    exact hcall.frame rfl rfl fun _ _ _ => Iff.rfl
  | began run pc => exact hs.began hi hk run pc
  | @answered w c ok run pc =>
    exact hs.setCall rfl rfl rfl (by rw [pc]; cases ok <;> rfl)
  | completed run pc | failed run pc | coded run pc | marked run pc | firstCode run pc
  | gaveBack run pc | subtracted run pc => exact hs.setCall rfl rfl rfl (by rw [pc]; rfl)
  | @sectioned op r hr henter hadvance =>
    obtain ⟨hcomp, -, hsec⟩ := WorkerRun.step_sectioned henter hadvance hr
    refine hs.frame rfl hcomp fun v u d => ?_
    cases hsec with
    | waits _ _ _ _ _ worker | refused _ _ _ _ _ _ _ worker | admitted _ _ _ _ _ _ worker
    | same _ _ worker => simp only [InDriver, worker]
    -- a worker that takes its turn has entered no callback
    | turned w x before phase _ _ after =>
      simp only [InDriver, after]
      by_cases hv : v = w
      · subst hv
        rw [Function.update_self, before]
        refine and_congr_left fun _ => iff_of_false ?_ (by simp)
        rintro (h | h) <;> cases phase _ _ h
      · rw [Function.update_of_ne hv]
  | locked hr hw hcb => exact hs.locked hi hr hw hcb
  | advanced hr before => exact hs.advanced hi hr before
  | otherGot | otherDenied | otherRelease | otherFill | otherHandles | flushBegan | flushRead
  | flushTimeout | flushFinish => exact hs.frame rfl rfl fun _ _ _ => Iff.rfl

/-! ### In order of acceptance -/

/-- **In order, without a gap.** The calls of the driver for a key are for the submissions that were
given the numbers `0, 1, …`. -/
theorem Ordered.numbered (hi : Inv s) (hs : Ordered s) (k : DatasetVariableKey) :
    (s.driverCalls k).map (fun w => s.workers.pool.submitter w.call) =
      (List.range (s.driverCalls k).length).map fun i => .returned (.accepted i) := by
  -- what was asked for comes from accepted tasks, which are numbered from zero
  obtain ⟨ts, hasked, hseq, hacc⟩ : ∃ ts : List (WriteTask Closure),
      s.askedFor k = ts.map (·.callback) ∧ ts.map (·.dvSeq) = List.range ts.length ∧
        ∀ t ∈ ts, t ∈ s.workers.accepted := by
    have hcompleted : ∀ t ∈ part WriteTask.dvKey s.workers.completed k, t ∈ s.workers.accepted := by
      intro t ht
      have hmem : t ∈ (s.workers.accepted : Multiset (WriteTask Closure)) := by
        rw [hi.workers.writes]
        exact Multiset.mem_add.mpr (.inr (Traces.mem_part.mp ht).1)
      exact hmem
    have hseqs : (part WriteTask.dvKey s.workers.completed k).map (·.dvSeq) =
        List.range (s.workers.pool.dvStates k).execSeq := hi.workers.completed_seqs k
    have hlen : (part WriteTask.dvKey s.workers.completed k).length =
        (s.workers.pool.dvStates k).execSeq := by
      simpa using congrArg List.length hseqs
    rcases hs k with ⟨w, t, c, hin, hk, heq⟩ | ⟨-, heq⟩
    · refine ⟨part WriteTask.dvKey s.workers.completed k ++ [t], ?_, ?_, fun u hu => ?_⟩
      · rw [heq, completedFor, List.map_append]
        rfl
      · have ht := hi.workers.in_flight_seq w t hin.outstanding
        rw [hk] at ht
        rw [List.map_append, hseqs, List.length_append, hlen, List.length_singleton,
          List.range_succ, List.map_singleton, ht]
      · rcases List.mem_append.mp hu with hu | hu
        · exact hcompleted u hu
        · rw [List.mem_singleton.mp hu]
          exact hi.accepted_of_outstanding hin.outstanding
    · exact ⟨_, heq, by rw [hseqs, hlen], hcompleted⟩
  -- the submitter of a task learnt its number
  let answer : Closure → Submitter Closure
    | .write c => s.workers.pool.submitter c
    | .prefetch _ => .idle
  have hlen : ts.length = (s.driverCalls k).length := by
    simpa [askedFor] using (congrArg List.length hasked).symm
  calc (s.driverCalls k).map (fun w => s.workers.pool.submitter w.call)
      = (s.askedFor k).map answer := by rw [askedFor, List.map_map]; rfl
    _ = ts.map fun t => answer t.callback := by rw [hasked, List.map_map]; rfl
    _ = ts.map fun t => .returned (.accepted t.dvSeq) := by
        refine List.map_congr_left fun t ht => ?_
        obtain ⟨c, hcb, hsub⟩ := hi.task t (hacc t ht)
        rw [hcb]
        exact hsub
    _ = (ts.map (·.dvSeq)).map fun i => .returned (.accepted i) := by rw [List.map_map]; rfl
    _ = (List.range (s.driverCalls k).length).map fun i => .returned (.accepted i) := by
        rw [hseq, hlen]

/-- When the pool has drained, the driver has been asked for every accepted write. -/
theorem Inv.asked_of_drained (hi : Inv s) (hl : Logged s) (hd : s.workers.pool.Drained) {c n : Nat}
    (hsub : s.workers.pool.submitter c = .returned (.accepted n)) :
    ∃ w ∈ s.driverLog, w.call = c := by
  have hone : 0 < s.workers.accepted.countP (·.callback = .write c) := by
    rw [hi.once, hsub]
    exact Nat.one_pos
  obtain ⟨t, ht, hcb⟩ := List.countP_pos_iff.mp hone
  -- in a drained pool every accepted task has been run
  have hcompleted : t ∈ s.workers.completed := by
    have hmem : t ∈ (s.workers.accepted : Multiset (WriteTask Closure)) := ht
    rw [hi.workers.writes, WorkerPool.writes, hd.1, Lts.tally_eq_zero] at hmem
    · simpa using hmem
    · intro w _
      have hidle := hi.workers.idle_of_drained hd w
      revert hidle
      cases s.workers.pool.worker w <;> simp [Worker.busy, Worker.outstanding]
  -- and its callback has asked the driver
  have hasked : ⟨c, (s.calls c).snapshot, s.metaOf c⟩ ∈ s.driverLog.filter (·.call = c) := by
    rw [hl c, hi.done t c hcompleted (of_decide_eq_true hcb)]
    exact List.mem_singleton_self _
  exact ⟨_, (List.mem_filter.mp hasked).1, rfl⟩

/-- A call of the driver has the bytes and the metadata of its write, which has been asked for. -/
theorem Logged.of_mem (hl : Logged s) {w : DriverWrite} (hw : w ∈ s.driverLog) :
    w.payload = (s.calls w.call).snapshot ∧ w.varMeta = s.metaOf w.call ∧
      (s.calls w.call).cb ≠ .waiting := by
  have hmem : w ∈ s.driverLog.filter (·.call = w.call) := List.mem_filter.mpr ⟨hw, by simp⟩
  rw [hl] at hmem
  split at hmem
  · next hasked =>
    have heq := List.mem_singleton.mp hmem
    exact ⟨congrArg DriverWrite.payload heq, congrArg DriverWrite.varMeta heq,
      fun hwaiting => by rw [hwaiting] at hasked; cases hasked⟩
  · cases hmem

/-! ### Arguments -/

end WriteRun

/-- The arguments of the call were let through. -/
def HostPc.admitted : HostPc → Bool
  | .returned status => decide (status = .ok)
  | _ => true

/-- Past `submit_write` the arguments have been checked. -/
theorem HostPc.admitted_of_past {pc : HostPc} (h : pc.past = true) : pc.admitted = true := by
  cases pc with
  | returned status => cases status <;> simp_all [HostPc.past, HostPc.admitted]
  | _ => rfl

namespace WriteRun

variable {s s' : WriteRun}

/-- A call goes on only with arguments that pass the checks. -/
def Checked (s : WriteRun) : Prop :=
  ∀ c, (s.calls c).host.admitted = true → (s.calls c).args.check = .ok

/-- A call that has passed the checks of its arguments, if it is past them. -/
theorem Checked.setCall (hs : Checked s) {c : Nat} {x : WriteCall}
    (hcalls : s'.calls = Function.update s.calls c x)
    (hx : x.host.admitted = true → x.args.check = .ok) : Checked s' := by
  unfold Checked
  rw [hcalls]
  exact (Function.forall_update_iff s.calls fun _ (y : WriteCall) =>
    y.host.admitted = true → y.args.check = .ok).mpr ⟨hx, fun d _ => hs d⟩

/-- The arguments of a call that is past the checks are accepted, after every step. -/
theorem Checked.step {op : WriteOp} (hs : Checked s) (h : Step s op s') : Checked s' := by
  cases h with
  | call args =>
    refine hs.setCall rfl fun h => ?_
    simp only at h ⊢
    split at h
    · assumption
    · exact of_decide_eq_true h
  | @got c b op p' hc pc =>
    exact hs.setCall rfl fun _ => hs c (by rcases pc with pc | pc <;> (rw [pc]; rfl))
  | @denied c op p' pc' hc pc next =>
    exact hs.setCall rfl fun _ => hs c (by rcases pc with pc | pc <;> (rw [pc]; rfl))
  | @copied c _ _ pc | @inserted c _ pc | @entered c _ _ pc | @submitted c _ _ pc
  | @counted c _ pc | @returned c _ pc => exact hs.setCall rfl fun _ => hs c (by rw [pc]; rfl)
  -- the callbacks do not touch the arguments, the flushes and the other users not even a call
  | @began w c | @answered w c | @completed w c | @failed w c | @coded w c | @marked w c
  | @firstCode w c | @gaveBack w c | @subtracted w c | @locked w c =>
    exact hs.setCall rfl (hs c)
  | sectioned | advanced | otherGot | otherDenied | otherRelease | otherFill | otherHandles
  | flushBegan | flushRead | flushTimeout | flushFinish => exact hs

/-! ### All of them -/

structure Delivering (s : WriteRun) : Prop where
  keyed : Keyed s
  ordered : Ordered s
  checked : Checked s

theorem Delivering.initial (a : PoolArgs) (n : Nat) (bp : BackpressureConfig)
    (ids : Nat → UInt64) : Delivering (start a n bp ids) where
  keyed := ⟨fun _ _ h => by simp [start, WorkerRun.start, WorkerPool.create] at h,
    fun _ h => absurd h List.not_mem_nil⟩
  ordered := fun _ => .inr
    ⟨fun _ _ _ h => by simp [InDriver, start, WorkerRun.start, WorkerPool.create] at h, rfl⟩
  checked := fun _ h => absurd h (by simp [start, HostPc.admitted])

/-- Every step of the write path keeps what is known of the deliveries. -/
theorem Delivering.step {op : WriteOp} (hi : Inv s) (hs : Delivering s) (h : Step s op s') :
    Delivering s' :=
  ⟨hs.keyed.step hi h, hs.ordered.step hi hs.keyed h, hs.checked.step h⟩

end WriteRun

/-! ### A core with its host memory -/

namespace IoRun

variable {s s' : IoRun}

theorem delivering_step (hs : Isolated s) (hd : s.asWrite.Delivering) {op : IoOp}
    (hstep : s.step op = some s') : s'.asWrite.Delivering := by
  have hwrite : ∀ (op : WriteOp) {t : IoRun}, (∀ o, op ≠ .other o) → s.writeStep op = some t →
      t.asWrite.Delivering := fun _ _ hop ht =>
    hd.step hs.writes.toInv (WriteRun.step_cases (hs.writeStep hop ht).2)
  cases op with
  | call args region =>
    simp only [IoRun.step] at hstep
    obtain ⟨t, ht, rfl⟩ := Option.map_eq_some_iff.mp hstep
    have hcall := hwrite (.call args) (by simp) ht
    exact hcall
  | copy c => exact hwrite _ (by simp) hstep
  | write op =>
    obtain ⟨hstep, hop, -⟩ := step_write hstep
    exact hwrite op hop hstep
  -- the queues do not touch the writes
  | read k op =>
    obtain ⟨hread, -⟩ := step_read hstep
    obtain ⟨q, hq, rfl⟩ := Option.map_eq_some_iff.mp hread
    exact ⟨⟨hd.keyed.busy, hd.keyed.task⟩, hd.ordered, hd.checked⟩
  | mutate region bytes =>
    simp only [IoRun.step, Option.ite_none_left_eq_some, Option.some.injEq] at hstep
    obtain ⟨-, rfl⟩ := hstep
    exact hd

theorem delivering (h : system.Reachable s) : Isolated s ∧ s.asWrite.Delivering := by
  refine h.invariant (I := fun s => Isolated s ∧ s.asWrite.Delivering)
    (fun s hinit => ⟨.initial hinit, ?_⟩) fun s op s' hs _ hstep =>
      ⟨hs.1.step hstep, delivering_step hs.1 hs.2 hstep⟩
  obtain ⟨a, n, bp, ids, -, hmemory, howner, hwrites, -⟩ := hinit
  have hwrite : s.asWrite = .start a n bp ids := by
    simp only [asWrite, shareWrite, hmemory, howner, hwrites]
    rfl
  rw [hwrite]
  exact .initial a n bp ids

/-- When the pool has drained, no accepted write is missing. -/
theorem driverCalls_of_drained (h : system.Reachable s) (hdrained : s.writes.workers.pool.Drained)
    {c n : Nat} (hsub : s.writes.workers.pool.submitter c = .returned (.accepted n)) :
    ∃ w ∈ s.writes.driverCalls (s.writes.keyOf c), w.call = c := by
  obtain ⟨hs, -⟩ := delivering h
  obtain ⟨w, hw, rfl⟩ := hs.writes.toInv.asked_of_drained hs.writes.logged hdrained hsub
  refine ⟨w, Traces.mem_part.mpr ⟨hw, ?_⟩, rfl⟩
  rw [DriverWrite.dvKey, (hs.writes.logged.of_mem hw).2.1]
  rfl

/-- **In order, once each, and as passed.** The `i`-th time that the driver is asked to write under
a key, it is for the call that `submit_write` gave the number `i`, with the bytes that the host had
passed to that call; and when the pool has drained, no accepted write is missing. -/
theorem delivered_in_order (h : system.Reachable s) :
    (∀ k, (s.writes.driverCalls k).map (fun w => s.writes.workers.pool.submitter w.call) =
      (List.range (s.writes.driverCalls k).length).map fun i => .returned (.accepted i)) ∧
    (∀ k, ∀ w ∈ s.writes.driverCalls k, s.writes.keyOf w.call = k ∧
      w.payload = (s.passed w.call).take (s.writes.calls w.call).args.payloadBytes) ∧
    (s.writes.workers.pool.Drained →
      ∀ c n, s.writes.workers.pool.submitter c = .returned (.accepted n) →
        ∃ w ∈ s.writes.driverCalls (s.writes.keyOf c), w.call = c) := by
  obtain ⟨hs, hd⟩ := delivering h
  have hsourced := (invariant h).2
  have hi := hs.writes.toInv
  refine ⟨fun k => hd.ordered.numbered hi k, fun k w hw => ?_,
    fun hdrained c n hsub => driverCalls_of_drained h hdrained hsub⟩
  obtain ⟨hlog, hk⟩ := Traces.mem_part.mp hw
  obtain ⟨hpayload, -, hcb⟩ := hs.writes.logged.of_mem hlog
  have hcopied := HostPc.hasCopied_of_past (hi.past_of_cb hcb).1
  have hkey : w.dvKey = s.writes.keyOf w.call := by
    rw [DriverWrite.dvKey, (hs.writes.logged.of_mem hlog).2.1]
    rfl
  exact ⟨hkey.symm.trans hk, hpayload.trans (hsourced.copied w.call hcopied).1⟩

/-- Call `c`, of one byte from region `0`, which then gets another value. -/
def overwriteOps (c : Nat) (next : UInt8) : List IoOp :=
  [.call ⟨0, [97], false, some .u8, ⟨1, fun _ => 1, fun _ => 0⟩⟩ 0,
    .write (.host c (.acquire true)), .copy c, .write (.host c .insert), .mutate 0 [next]] ++
    (WriteRun.submitOps c).map .write

/-- The worker executes the next task and becomes idle again. -/
def finishOps : List IoOp :=
  (WriteRun.executeOps 0 true ++ List.replicate 3 (WriteOp.worker (.advance 0))).map .write

/-- Two writes of one variable are both accepted before the worker takes the first. -/
def overwrittenOps : List IoOp :=
  overwriteOps 0 8 ++ overwriteOps 1 9 ++ finishOps ++ finishOps

theorem delivered_in_order_of_overwrite :
    ∃ s, system.replay (fun _ _ => True) byteHost overwrittenOps = some s ∧
      (s.writes.driverCalls ⟨0, 97⟩).map (·.payload) = [[7], [8]] ∧
      s.writes.workers.pool.Drained ∧
      (s.writes.driverCalls ⟨0, 97⟩).map (fun w => s.writes.workers.pool.submitter w.call) =
        [.returned (.accepted 0), .returned (.accepted 1)] := by
  have hrun : ((system.replay (fun _ _ => True) byteHost overwrittenOps).map fun s =>
      ((s.writes.driverCalls ⟨0, 97⟩).map (·.payload), decide s.writes.workers.pool.Drained)) =
        some ([[7], [8]], true) := by decide +kernel
  obtain ⟨s, hs, hobs⟩ := Option.map_eq_some_iff.mp hrun
  simp only [Prod.mk.injEq, decide_eq_true_eq] at hobs
  obtain ⟨hpayloads, hdrained⟩ := hobs
  have hinit : system.init byteHost :=
    ⟨_, 1, _, _, by decide, rfl, rfl, rfl, fun _ => ⟨_, _, _, _, rfl⟩⟩
  have horder := (delivered_in_order (.of_replay _ hinit hs)).1 ⟨0, 97⟩
  have hlen : (s.writes.driverCalls ⟨0, 97⟩).length = 2 := by
    simpa using congrArg List.length hpayloads
  rw [hlen] at horder
  exact ⟨s, hs, hpayloads, hdrained, horder⟩

end IoRun

end Amio
