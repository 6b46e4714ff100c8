import Amio.Workers.Run

/-!
# Backpressure watermarks

With backpressure a write submission that finds the queue at the high watermark waits until it is
below the low one. The wait is limited to one second, and a submission whose wait is over pushes
whether or not its condition holds: the watermarks then bound nothing. With a low watermark of zero
the condition cannot hold at all, since no queue is shorter than empty.

In a run in which every wait ends with its condition, the queue stays within the high watermark, and
an empty queue releases every waiting writer if the low watermark is positive (`watermarks_kept`).
-/

namespace Amio

namespace WorkerRun

variable {α : Type}

/-- The watermarks are configured as `BackpressureConfig` asks for. -/
def ValidWatermarks (bp : BackpressureConfig) : Prop :=
  bp.enabled = true ∧ bp.lowWatermark < bp.highWatermark ∧ bp.highWatermark ≤ bp.queueCapacity

/-- A wait on `backpressure_cv_` ends with its condition, not with its time. -/
def InTime (s : WorkerRun α) : WorkerOp α → Prop
  | .wake _ _ => s.pool.wakesWriter false = true
  | _ => True

/-- The discipline of the watermarks. -/
structure Watermarked (s : WorkerRun α) : Prop where
  bounded : s.pool.writeQueue.length ≤ s.pool.backpressure.highWatermark
  within_capacity : s.pool.writeQueue.length ≤ s.pool.backpressure.queueCapacity
  /-- A submission that finds the queue at the high watermark is not enqueued … -/
  waits : ∀ c req s', s.pool.submitter c = .entered req →
    s.pool.backpressure.highWatermark ≤ s.pool.writeQueue.length → s.step (.lock c) = some s' →
    s'.pool.submitter c = .waiting req ∧ s'.pool.writeQueue = s.pool.writeQueue
  /-- … until the queue is below the low one. -/
  resumes : ∀ c req timedOut s', s.pool.submitter c = .waiting req → s.InTime (.wake c timedOut) →
    s.step (.wake c timedOut) = some s' → s'.pool.writeQueue ≠ s.pool.writeQueue →
    s.pool.writeQueue.length < s.pool.backpressure.lowWatermark
  /-- An empty queue releases every writer. -/
  released : s.pool.writeQueue = [] → s.pool.shutdown = false → s.pool.wakesWriter false = true

variable {s s' : WorkerRun α}

/-- The condition of a wait that ends in a push. -/
theorem length_lt_low (hbp : s.pool.backpressure.enabled = true)
    (hwakes : s.pool.wakesWriter false = true) (hnone : s.pool.refusal = none) :
    s.pool.writeQueue.length < s.pool.backpressure.lowWatermark := by
  have hopen : s.pool.shutdown = false := by
    simpa [WorkerPool.refusal, hbp] using hnone
  simpa [WorkerPool.wakesWriter, hopen] using hwakes

/-- A step in time keeps the queue below the watermark. -/
theorem bounded_step {op : WorkerOp α} (hbp : ValidWatermarks s.pool.backpressure)
    (hb : s.pool.writeQueue.length ≤ s.pool.backpressure.highWatermark) (hok : s.InTime op)
    (h : s.step op = some s') :
    s'.pool.writeQueue.length ≤ s'.pool.backpressure.highWatermark := by
  obtain ⟨-, hconfig, -⟩ := step_frame h
  obtain ⟨henabled, hlow, -⟩ := hbp
  rw [hconfig]
  cases step_queued h with
  | same hop hwrite => rwa [hwrite]
  -- the writer was let in below the high mark
  | locked c req before room refusal hwrite =>
    have hroom : s.pool.writeQueue.length < s.pool.backpressure.highWatermark := by
      simpa [WorkerPool.blocksWriter, henabled] using room
    rw [hwrite, List.length_append, List.length_singleton]
    omega
  -- a writer woken in time finds the queue below the low mark
  | woken c req timedOut before wakes refusal hwrite =>
    have hroom := length_lt_low henabled hok refusal
    rw [hwrite, List.length_append, List.length_singleton]
    omega
  | prefetched task late hlate hwrite => rwa [hwrite]
  | turned w top before lt hlength => exact hlength.trans hb

theorem bounded_of_reach (h : (system α).Reach (fun s op => s.InTime op) s)
    (hbp : ValidWatermarks s.pool.backpressure) :
    s.pool.writeQueue.length ≤ s.pool.backpressure.highWatermark := by
  revert hbp
  induction h with
  | init hs =>
    obtain ⟨n, bp, rfl⟩ := hs
    exact fun _ => Nat.zero_le _
  | step _ hok hstep ih =>
    intro hbp
    rw [(step_frame hstep).2.1] at hbp
    exact bounded_step hbp (ih hbp) hok hstep

/-- **Watermarks.** In every run in which no wait ends without its condition, a valid configuration
with a positive low watermark is kept to. -/
theorem watermarks_kept (h : (system α).Reach (fun s op => s.InTime op) s)
    (hbp : ValidWatermarks s.pool.backpressure) (hlow : 0 < s.pool.backpressure.lowWatermark) :
    s.Watermarked := by
  obtain ⟨henabled, hless, hcapacity⟩ := hbp
  have hbounded := bounded_of_reach h ⟨henabled, hless, hcapacity⟩
  refine ⟨hbounded, hbounded.trans hcapacity, fun c req s' hc hfull hstep => ?_,
    fun c req timedOut s' hc hok hstep hpush => ?_, fun hempty _ => ?_⟩
  -- at the high mark a new writer has to wait
  · have hblocks : s.pool.blocksWriter = true := by simp [WorkerPool.blocksWriter, henabled, hfull]
    cases step_cases hstep with
    | waits before =>
      obtain rfl := Submitter.entered.inj (before.symm.trans hc)
      exact ⟨by simp [WorkerPool.setSubmitter], rfl⟩
    | locks before room => cases hblocks.symm.trans room
  · cases step_queued hstep with
    | same hop hwrite => exact absurd hwrite hpush
    | woken _ req' _ before wakes refusal => exact length_lt_low henabled hok refusal
  · simp [WorkerPool.wakesWriter, hempty, hlow]

instance (s : WorkerRun α) : ∀ op, Decidable (s.InTime op)
  | .wake _ _ => inferInstanceAs (Decidable (s.pool.wakesWriter false = true))
  | .enter _ _ | .lock _ | .submitPrefetch _ _ | .shutdown | .turn _ _ | .advance _ =>
    isTrue trivial

/-- Three submissions to a pool with the watermarks one and two; the third waits. -/
def fullQueueOps : List (WorkerOp Nat) :=
  [.enter 0 ⟨⟨1, 1⟩, 7, 10⟩, .lock 0, .enter 1 ⟨⟨1, 1⟩, 8, 11⟩, .lock 1, .enter 2 ⟨⟨1, 1⟩, 9, 12⟩,
    .lock 2]

def twoSlots : BackpressureConfig := ⟨true, 1, 2, 2⟩

theorem watermarks_kept_full :
    ∃ s, (system Nat).replay (fun s op => s.InTime op) (start Nat 1 twoSlots) fullQueueOps =
        some s ∧ s.pool.writeQueue.length = 2 ∧ s.Watermarked :=
  ⟨_, rfl, rfl, watermarks_kept
    (Lts.System.Reach.of_replay fullQueueOps (.init ⟨1, twoSlots, rfl⟩) rfl)
    ⟨rfl, by decide, by decide⟩ (by decide)⟩

/-- One slot and no low watermark: a second submission waits, and the queue is emptied. -/
def oneSlotOps : List (WorkerOp Nat) :=
  [.enter 0 ⟨⟨1, 1⟩, 7, 10⟩, .lock 0, .enter 1 ⟨⟨1, 1⟩, 8, 11⟩, .lock 1, .turn 0 0]

def oneSlot : BackpressureConfig := ⟨true, 0, 1, 1⟩

/-- The wait of the third submission times out and the queue outgrows its capacity; and with a low
watermark of zero a writer waits on an empty queue. -/
theorem watermarks_broken :
    (∃ s, (system Nat).replay (fun _ _ => True) (start Nat 1 twoSlots)
        (fullQueueOps ++ [.wake 2 true]) = some s ∧
      (system Nat).Reachable s ∧ s.pool.writeQueue.length = 3 ∧ ¬ s.Watermarked) ∧
    ∃ s, (system Nat).replay (fun _ _ => True) (start Nat 1 oneSlot) oneSlotOps = some s ∧
      (system Nat).Reachable s ∧ s.pool.submitter 1 = .waiting ⟨⟨1, 1⟩, 8, 11⟩ ∧
      s.pool.writeQueue = [] ∧ s.pool.wakesWriter false = false ∧ ¬ s.Watermarked := by
  refine ⟨⟨_, rfl, Lts.System.Reachable.of_replay (fullQueueOps ++ [.wake 2 true])
      ⟨1, twoSlots, rfl⟩ rfl, rfl, fun h => ?_⟩,
    ⟨_, rfl, Lts.System.Reachable.of_replay oneSlotOps ⟨1, oneSlot, rfl⟩ rfl, rfl, rfl, rfl,
      fun h => ?_⟩⟩
  · exact absurd h.bounded (by decide)
  · cases h.released rfl rfl

end WorkerRun

end Amio
