import Amio.Boundary.Delivery
import Amio.Config.Manifest
import Amio.Lib.Outcome

/-!
# What a manifest means for a running core

`init` and `init_from_string` (`c_boundary/amio_core.cpp`) parse a manifest and construct the
staging pool and the worker pool of a core from it. `InitCall.run` is a call of the entry points,
and `Core` what the two pools of the core were constructed with.

An accepted manifest trips none of the constructors' assertions, so every call returns
(`InitCall.run_returns`). Of the sections of the manifest, `init_from_config` passes the staging
pool's and the number of threads: the worker pool gets the default `BackpressureConfig`, whatever
the section `backpressure` says. Every run of the core keeps to that (`limits_kept`).
-/

namespace Amio

open ConfigLoader (Valid SignedInts intD toNat_valueD castExact_of_le)

/-! ### `init` -/

/-- The constructor of `StagingPool`; `none` when an assertion fails. -/
def PoolArgs.construct? (bufferCount bufferCapacity : Nat) (timeoutMs : Int) (maxBufferCount : Nat)
    (mode : GrowMode) : Option PoolArgs :=
  if h : (1 ≤ bufferCount ∧ bufferCount ≤ kMaxBufferCount) ∧
      (1 ≤ bufferCapacity ∧ bufferCapacity ≤ kMaxBufferCapacity) ∧
      (1 ≤ timeoutMs ∧ timeoutMs ≤ kMaxTimeoutMs) ∧ bufferCount ≤ maxBufferCount ∧
      maxBufferCount ≤ kMaxBufferCount then
    some
      { bufferCount, bufferCapacity, timeoutMs, maxBufferCount, mode
        count_range := h.1
        capacity_range := h.2.1
        timeout_range := h.2.2.1
        max_ge := h.2.2.2.1
        max_le := h.2.2.2.2 }
  else none

/-- `WorkerPoolConfig`. The pinning of the threads and the communicator play no part here. -/
structure WorkerPoolConfig where
  threadCount : Nat := 1
  backpressure : BackpressureConfig := {}
  deriving DecidableEq, Repr

/-- `AMIO_Core`: what its pools were constructed with, and its timeout. -/
structure Core where
  stagingPool : PoolArgs
  workerPool : Option WorkerPoolConfig
  stagingTimeoutMs : Int

/-- `init_from_config`. The two constructors end the program when an assertion of theirs fails. -/
def initFromConfig (cfg : Config) : Outcome Empty Core := do
  -- the sizes of the manifest, the timeout cast to a signed type
  let stagingPool ← Outcome.ofOption (PoolArgs.construct? cfg.stagingPool.bufferCount.toNat
    cfg.stagingPool.bufferCapacityBytes.toNat cfg.stagingTimeoutMs.toInt64.toInt
    cfg.stagingPool.maxBufferCount.toNat .grow)
  let workerPool ←
    -- no threads, no pool
    if 0 < cfg.workerPool.threads then do
      let wp : WorkerPoolConfig := { threadCount := cfg.workerPool.threads.toNat }
      .expect (wp.threadCount ≤ kMaxThreadCount)
      pure (some wp)
    else pure none
  pure
    { stagingPool, workerPool, stagingTimeoutMs := cfg.stagingTimeoutMs.toInt64.toInt }

/-- The two entry points, with their arguments; `none` is a null pointer. -/
inductive InitCall
  | file (manifestPath : Option String)
  | string (manifestContent format : Option String)
  deriving DecidableEq, Repr

/-- What the loader makes of the manifest, when no argument is null. -/
def InitCall.parsed (lib : ConfLibrary) : InitCall → Option (AmioErr × Config × ValidationError)
  | .file manifestPath => manifestPath.map fun path => ConfigLoader.parse lib path {} {}
  | .string manifestContent format =>
    match manifestContent, format with
    | some content, some format => some (ConfigLoader.parseString lib content format {} {})
    | _, _ => none

/-- The document that the loader reads. -/
def InitCall.document (lib : ConfLibrary) : InitCall → Option (Except ConfError Conf)
  | .file manifestPath => manifestPath.map lib.fromFile
  | .string manifestContent format =>
    match manifestContent, format with
    | some content, some _ => some (lib.fromString content)
    | _, _ => none

/-- `amio_init` and `amio_init_from_string`: the status, and the core that a handle was minted
for. `outCore` is false for a null out pointer. -/
def InitCall.run (lib : ConfLibrary) (outCore : Bool) (call : InitCall) :
    Outcome Empty (AmioErr × Option Core) :=
  if outCore = false then .done (.invalidInput, none)
  else
    match call.parsed lib with
    -- one of the pointers is null
    | none => .done (.invalidInput, none)
    | some (code, cfg, _) =>
      if code = .ok then do
        let core ← initFromConfig cfg
        pure (.ok, some core)
      else .done (code, none)

/-! ### Every call returns -/

variable {m : Conf} {cfg : Config} {core : Core} {lib : ConfLibrary}

/-- The core is constructed with the integers of the document, and with the default
`BackpressureConfig`. -/
structure Core.BuiltFrom (core : Core) (m : Conf) : Prop where
  bufferCount : (core.stagingPool.bufferCount : Int) = intD m "staging_pool.buffer_count" 16
  bufferCapacity : (core.stagingPool.bufferCapacity : Int) =
    intD m "staging_pool.buffer_capacity_bytes" 1048576
  maxBufferCount : (core.stagingPool.maxBufferCount : Int) =
    intD m "staging_pool.max_buffer_count" 4096
  mode : core.stagingPool.mode = .grow
  timeoutMs : core.stagingPool.timeoutMs = intD m "staging_timeout_ms" 5000
  stagingTimeoutMs : core.stagingTimeoutMs = intD m "staging_timeout_ms" 5000
  workerPool : ∃ n : Nat, core.workerPool = some { threadCount := n } ∧ n ≤ kMaxThreadCount ∧
    (n : Int) = intD m "worker_pool.threads" 1

/-- A cast to `std::int64_t`. -/
theorem toInt_toInt64 {n : UInt64} (h : n.toNat < 2 ^ 63) : n.toInt64.toInt = n.toNat := by
  have hlt : 2 * n.toBitVec.toNat < 2 ^ 64 := by
    have htoNat : n.toBitVec.toNat = n.toNat := rfl
    omega
  exact BitVec.toInt_eq_toNat_of_lt hlt

/-- What the schema allows trips no assertion. -/
theorem initFromConfig_of_valid (h : Valid cfg) :
    ∃ core, initFromConfig cfg = .done core ∧
      core.stagingPool.bufferCount = cfg.stagingPool.bufferCount.toNat ∧
      core.stagingPool.bufferCapacity = cfg.stagingPool.bufferCapacityBytes.toNat ∧
      core.stagingPool.maxBufferCount = cfg.stagingPool.maxBufferCount.toNat ∧
      core.stagingPool.mode = .grow ∧ core.stagingPool.timeoutMs = cfg.stagingTimeoutMs.toNat ∧
      core.stagingTimeoutMs = cfg.stagingTimeoutMs.toNat ∧
      core.workerPool = some { threadCount := cfg.workerPool.threads.toNat } ∧
      cfg.workerPool.threads.toNat ≤ kMaxThreadCount := by
  have hle : ∀ {a b : UInt64}, a ≤ b → a.toNat ≤ b.toNat := UInt64.le_iff_toNat_le.mp
  have hcount : 1 ≤ cfg.stagingPool.bufferCount.toNat ∧
      cfg.stagingPool.bufferCount.toNat ≤ kMaxBufferCount :=
    ⟨hle h.bufferCount.1, hle h.bufferCount.2⟩
  have hcapacity : 1 ≤ cfg.stagingPool.bufferCapacityBytes.toNat ∧
      cfg.stagingPool.bufferCapacityBytes.toNat ≤ kMaxBufferCapacity :=
    ⟨hle h.bufferCapacity.1, hle h.bufferCapacity.2⟩
  have hmax : cfg.stagingPool.bufferCount.toNat ≤ cfg.stagingPool.maxBufferCount.toNat ∧
      cfg.stagingPool.maxBufferCount.toNat ≤ kMaxBufferCount :=
    ⟨hle h.maxBufferCount.1, hle h.maxBufferCount.2⟩
  have hthreads : 1 ≤ cfg.workerPool.threads.toNat ∧
      cfg.workerPool.threads.toNat ≤ kMaxThreadCount :=
    ⟨hle h.threads.1, hle h.threads.2⟩
  have hms : 1 ≤ cfg.stagingTimeoutMs.toNat ∧ cfg.stagingTimeoutMs.toNat ≤ 60000 :=
    ⟨hle h.stagingTimeout.1, hle h.stagingTimeout.2⟩
  have htimeout : 1 ≤ (cfg.stagingTimeoutMs.toNat : Int) ∧
      (cfg.stagingTimeoutMs.toNat : Int) ≤ kMaxTimeoutMs :=
    ⟨by omega, by show _ ≤ (60000 : Int); omega⟩
  -- the timeout is cast to a signed integer, and is small enough
  have hcast : cfg.stagingTimeoutMs.toInt64.toInt = cfg.stagingTimeoutMs.toNat :=
    toInt_toInt64 (by omega)
  have hpos : 0 < cfg.workerPool.threads := UInt64.lt_iff_toNat_lt.mpr hthreads.1
  -- so every check of the constructors passes
  refine ⟨⟨⟨_, _, cfg.stagingTimeoutMs.toNat, _, .grow, hcount, hcapacity, htimeout, hmax.1,
    hmax.2⟩, some { threadCount := cfg.workerPool.threads.toNat }, cfg.stagingTimeoutMs.toNat⟩, ?_,
    rfl, rfl, rfl, rfl, rfl, rfl, rfl, hthreads.2⟩
  have hargs : PoolArgs.construct? _ _ _ _ .grow = some _ :=
    dif_pos ⟨hcount, hcapacity, htimeout, hmax⟩
  rw [initFromConfig, hcast, hargs]
  simp only [Outcome.ofOption, Outcome.done_bind, if_pos hpos, Outcome.expect, if_pos hthreads.2,
    Outcome.pure_eq]

/-- **The core is the manifest's.** A document that `populate_from_conf` accepts is one that
`init_from_config` builds a core from, with the document's own integers. -/
theorem initFromConfig_of_accepted (hs : SignedInts m) {error error' : ValidationError}
    (h : ConfigLoader.populateFromConf m error = (.ok, cfg, error')) :
    ∃ core, initFromConfig cfg = .done core ∧ core.BuiltFrom m := by
  obtain ⟨rfl, hvalid, -⟩ := ConfigLoader.populateFromConf_ok h
  obtain ⟨core, hdone, hcount, hcapacity, hmax, hmode, htimeout, hstaging, hworkers, hle⟩ :=
    initFromConfig_of_valid hvalid
  have hms : ((ConfigLoader.readConfig m).stagingTimeoutMs.toNat : Int) =
      intD m "staging_timeout_ms" 5000 :=
    toNat_valueD (castExact_of_le hs (by decide) hvalid.stagingTimeout.2) rfl
  refine ⟨core, hdone, ?_, ?_, ?_, hmode, htimeout.trans hms, hstaging.trans hms,
    _, hworkers, hle, ?_⟩
  · rw [hcount]
    exact toNat_valueD (castExact_of_le hs (by decide) hvalid.bufferCount.2) rfl
  · rw [hcapacity]
    exact toNat_valueD (castExact_of_le hs (by decide) hvalid.bufferCapacity.2) rfl
  · rw [hmax]
    exact toNat_valueD (castExact_of_le hs (by decide) hvalid.maxBufferCount.2) rfl
  · exact toNat_valueD (castExact_of_le hs (by decide) hvalid.threads.2) rfl

/-- The configuration that the call parses. -/
theorem InitCall.parsed_eq (call : InitCall) :
    call.parsed lib = (call.document lib).map fun d => ConfigLoader.parseResult d {} {} := by
  cases call with
  | file manifestPath => cases manifestPath <;> rfl
  | string manifestContent format =>
    cases manifestContent <;> cases format <;> rfl

/-- A document that is accepted was parsed, and populates the configuration. -/
theorem parseResult_ok {d : Except ConfError Conf} {config : Config}
    {error error' : ValidationError}
    (h : ConfigLoader.parseResult d config error = (.ok, cfg, error')) :
    ∃ m, d = .ok m ∧ ConfigLoader.populateFromConf m error = (.ok, cfg, error') := by
  cases d with
  | ok m => exact ⟨m, rfl, h⟩
  | error e =>
    have hcode : (if e.code = .fileNotFound then AmioErr.manifestNotFound else .manifestInvalid) =
        .ok := congrArg Prod.fst h
    split at hcode <;> cases hcode

/-- **Every call returns**, and mints a handle with the status `AMIO_OK` and with no other; then the
core is that of the document. -/
theorem InitCall.run_cases {call : InitCall} {outCore : Bool}
    (hs : ∀ m, call.document lib = some (.ok m) → SignedInts m) :
    (∃ code, code ≠ .ok ∧ call.run lib outCore = .done (code, none)) ∨
      ∃ core m, call.run lib outCore = .done (.ok, some core) ∧
        call.document lib = some (.ok m) ∧ core.BuiltFrom m := by
  unfold InitCall.run
  by_cases hout : outCore = false
  · exact .inl ⟨.invalidInput, nofun, if_pos hout⟩
  rw [if_neg hout, call.parsed_eq]
  cases hdoc : call.document lib with
  | none => exact .inl ⟨.invalidInput, nofun, rfl⟩
  | some d =>
    obtain ⟨⟨code, cfg, error⟩, hparse⟩ : ∃ p, ConfigLoader.parseResult d {} {} = p := ⟨_, rfl⟩
    simp only [Option.map_some, hparse]
    -- a manifest that passes the checks has sizes that the constructors take
    by_cases hcode : code = .ok
    · subst hcode
      obtain ⟨m, rfl, hpopulate⟩ := parseResult_ok hparse
      obtain ⟨core, hcore, hbuilt⟩ := initFromConfig_of_accepted (hs m hdoc) hpopulate
      refine .inr ⟨core, m, ?_, rfl, hbuilt⟩
      rw [if_pos rfl, hcore]
      rfl
    · exact .inl ⟨code, hcode, if_neg hcode⟩

/-! ### A pool with the default configuration -/

namespace WorkerRun

variable {α : Type} {s s' : WorkerRun α}

/-- Without backpressure nobody waits in `submit_write`, and the queue keeps to its capacity. -/
structure Unthrottled (s : WorkerRun α) : Prop where
  disabled : s.pool.backpressure.enabled = false
  bounded : s.pool.writeQueue.length ≤ s.pool.backpressure.queueCapacity
  unblocked : ∀ c req, s.pool.submitter c ≠ .waiting req

/-- Without watermarks the queue stays within its capacity. -/
theorem Unthrottled.step (hs : Unthrottled s) {op : WorkerOp α} (h : s.step op = some s') :
    Unthrottled s' := by
  obtain ⟨-, hconfig, -⟩ := step_frame h
  refine ⟨hconfig ▸ hs.disabled, ?_, ?_⟩
  -- the queue grows only by a submission that finds room
  · rw [hconfig]
    cases step_queued h with
    | same hop hwrite => exact hwrite ▸ hs.bounded
    | locked c req before room refusal hwrite =>
      have hroom : s.pool.writeQueue.length < s.pool.backpressure.queueCapacity := by
        simpa [WorkerPool.refusal, hs.disabled] using refusal
      rw [hwrite, List.length_append, List.length_singleton]
      exact hroom
    | woken c req timedOut before => exact absurd before (hs.unblocked c req)
    | prefetched task late hlate hwrite => exact hwrite ▸ hs.bounded
    | turned w top before lt hlength => exact hlength.trans hs.bounded
  -- without watermarks no submission waits
  · have hset : ∀ (c : Nat) (x : Submitter α), (∀ req, x ≠ .waiting req) → ∀ d req,
        Function.update s.pool.submitter c x d ≠ .waiting req := by
      intro c x hx d req
      by_cases hd : d = c
      · rw [hd, Function.update_self]
        exact hx req
      · rw [Function.update_of_ne hd]
        exact hs.unblocked d req
    cases step_cases h with
    | enters c req =>
      refine hset c _ fun req' => ?_
      split <;> simp
    | waits before full =>
      have hblocks : s.pool.blocksWriter = false := by simp [WorkerPool.blocksWriter, hs.disabled]
      exact absurd full (by rw [hblocks]; exact Bool.false_ne_true)
    | @locks c req before =>
      unfold WorkerRun.finishSubmit
      split
      · exact hset c _ (by simp)
      · exact hset c _ (by simp)
    | @wakes c req timedOut before => exact absurd before (hs.unblocked c req)
    | dropped | prefetches | shuts => exact hs.unblocked
    | @turns w top => exact (turn_frame s w top).1 ▸ hs.unblocked
    | advances ran =>
      exact (advance_cases ran).2.1 ▸ hs.unblocked

end WorkerRun

namespace WriteRun

variable {s s' : WriteRun}

theorem unthrottled_step (hs : s.workers.Unthrottled) {op : WriteOp} (h : Step s op s') :
    s'.workers.Unthrottled ∧ s'.workers.pool.threadCount = s.workers.pool.threadCount ∧
      s'.workers.pool.backpressure = s.workers.pool.backpressure := by
  have hstep : ∀ (op : WorkerOp Closure) {r : WorkerRun Closure}, s.workers.step op = some r →
      r.Unthrottled ∧ r.pool.threadCount = s.workers.pool.threadCount ∧
        r.pool.backpressure = s.workers.pool.backpressure := fun _ _ hr =>
    ⟨hs.step hr, (WorkerRun.step_frame hr).1, (WorkerRun.step_frame hr).2.1⟩
  cases h with
  | entered hc pc hr => exact hstep _ hr
  | sectioned hr => exact hstep _ hr
  | @locked w c t r hr => exact hstep (.advance w) hr
  | @advanced w r hr => exact hstep (.advance w) hr
  | _ => exact ⟨hs, rfl, rfl⟩

end WriteRun

/-! ### The configuration of the staging pool -/

namespace StagingPool

variable {p : StagingPool}

/-- No operation of the pool changes its limits. -/
theorem commitAt_sameConfig {i r : Nat} {alloc : Bool} : (p.commitAt i r alloc).2.SameConfig p := by
  unfold StagingPool.commitAt
  simp only
  split
  · next p' hp' =>
    obtain ⟨d, c, -, rfl⟩ := ensureStorage_some hp'
    exact ⟨rfl, rfl, rfl, rfl⟩
  · exact ⟨rfl, rfl, rfl, rfl⟩

theorem acquireLoop_sameConfig {n r : Nat} {alloc : Bool} :
    (acquireLoop r alloc n p).2.SameConfig p := by
  induction n generalizing p with
  | zero => exact ⟨rfl, rfl, rfl, rfl⟩
  | succ n ih =>
    unfold StagingPool.acquireLoop
    simp only
    split
    · exact commitAt_sameConfig
    · split
      · have hslot : p.appendSlot.SameConfig p := ⟨rfl, rfl, rfl, rfl⟩
        exact ih.trans hslot
      · exact ⟨rfl, rfl, rfl, rfl⟩

theorem act_sameConfig (p : StagingPool) (op : PoolAct) : (p.act op).SameConfig p := by
  cases op with
  | acquire r alloc final =>
    cases final with
    | false => exact acquireLoop_sameConfig
    | true =>
      show (p.acquireFinal r alloc).2.SameConfig p
      unfold StagingPool.acquireFinal
      simp only
      split
      · exact commitAt_sameConfig
      · exact ⟨rfl, rfl, rfl, rfl⟩
  | release buf => exact release_sameConfig p buf
  | addRef buf => exact ⟨rfl, rfl, rfl, rfl⟩
  | fill buf bytes => exact ⟨rfl, rfl, rfl, rfl⟩

end StagingPool

namespace IoRun

variable {s s' : IoRun}

theorem run_sameConfig (m : PoolMemory) (acts : List PoolAct) :
    (run m acts).pool.SameConfig m.pool := by
  induction acts generalizing m with
  | nil => exact ⟨rfl, rfl, rfl, rfl⟩
  | cons op acts ih =>
    have hact : (m.act op).2.pool.SameConfig m.pool := by
      rw [PoolMemory.act_pool]
      exact m.pool.act_sameConfig op
    exact (ih (m.act op).2).trans hact

/-! ### Runs of a core -/

/-- A core built as `core`, with any datasets opened. -/
def BuiltAs (core : Core) (s : IoRun) : Prop :=
  ∃ wp ids, core.workerPool = some wp ∧ s.memory = .create core.stagingPool ∧
    s.owner = (fun _ => none) ∧
    s.writes = .start core.stagingPool wp.threadCount wp.backpressure ids ∧
    ∀ k, ∃ depth id name info, s.queues k = .start depth id name info core.stagingPool

/-- The configuration of the core with the arguments `a` and `n` threads, and what it implies for
the queue of writes. -/
structure Configured (a : PoolArgs) (n : Nat) (s : IoRun) : Prop where
  staging : s.memory.pool.SameConfig (.create a)
  threads : s.writes.workers.pool.threadCount = n
  backpressure : s.writes.workers.pool.backpressure = {}
  unthrottled : s.writes.workers.Unthrottled

/-- A step of the write path keeps the limits. -/
theorem Configured.writeStep {a : PoolArgs} {n : Nat} (h : Configured a n s) {op : WriteOp}
    (hstep : s.writeStep op = some s') : Configured a n s' := by
  obtain ⟨w, hw, rfl⟩ := Option.map_eq_some_iff.mp hstep
  have hworkers : s.asWrite.workers.Unthrottled := h.unthrottled
  obtain ⟨hun, hthreads, hconfig⟩ :=
    WriteRun.unthrottled_step hworkers (WriteRun.step_cases hw)
  exact ⟨(run_sameConfig _ _).trans h.staging, hthreads.trans h.threads,
    hconfig.trans h.backpressure, hun⟩

/-- Every step inside a core keeps them. -/
theorem Configured.step {a : PoolArgs} {n : Nat} (h : Configured a n s) {op : IoOp}
    (hstep : s.step op = some s') : Configured a n s' := by
  cases op with
  | call args region =>
    simp only [IoRun.step] at hstep
    obtain ⟨t, ht, rfl⟩ := Option.map_eq_some_iff.mp hstep
    have hcall := h.writeStep ht
    exact ⟨hcall.staging, hcall.threads, hcall.backpressure, hcall.unthrottled⟩
  | copy c => exact h.writeStep hstep
  | write op => exact h.writeStep (step_write hstep).1
  | read k op =>
    obtain ⟨q, hq, rfl⟩ := Option.map_eq_some_iff.mp (step_read hstep).1
    exact ⟨(run_sameConfig _ _).trans h.staging, h.threads, h.backpressure, h.unthrottled⟩
  | mutate region bytes =>
    simp only [IoRun.step, Option.ite_none_left_eq_some, Option.some.injEq] at hstep
    obtain ⟨-, rfl⟩ := hstep
    exact ⟨h.staging, h.threads, h.backpressure, h.unthrottled⟩

theorem configured {core : Core} {n : Nat} (hworkers : core.workerPool = some { threadCount := n })
    (hn : n ≤ kMaxThreadCount) {s₀ : IoRun} (h₀ : BuiltAs core s₀) (h : system.After s₀ s) :
    Isolated s ∧ Configured core.stagingPool n s := by
  obtain ⟨wp, ids, hwp, hmemory, howner, hwrites, hqueues⟩ := h₀
  obtain rfl : _ = wp := Option.some.inj (hworkers.symm.trans hwp)
  have hinit : system.init s₀ := ⟨_, _, _, _, hn, hmemory, howner, hwrites, hqueues⟩
  have hstart : Configured core.stagingPool n s₀ := by
    refine ⟨?_, ?_, ?_, ?_⟩
    · rw [hmemory]
      exact ⟨rfl, rfl, rfl, rfl⟩
    all_goals rw [hwrites]
    · rfl
    · rfl
    · exact ⟨rfl, Nat.zero_le _, nofun⟩
  exact Lts.System.After.stable (J := fun _ => True)
    (Q := fun s => Isolated s ∧ Configured core.stagingPool n s) (fun _ _ _ _ _ => trivial)
    (fun _ _ _ _ hs hstep => ⟨hs.1.step hstep, hs.2.step hstep⟩) h trivial ⟨.initial hinit, hstart⟩

/-- What the manifest `m` means for a running core. -/
structure KeepsTo (m : Conf) (s : IoRun) : Prop where
  /-- The staging pool has as many buffers as configured, and grows to the configured ceiling. -/
  slots : intD m "staging_pool.buffer_count" 16 ≤ s.memory.pool.size ∧
    (s.memory.pool.size : Int) ≤ intD m "staging_pool.max_buffer_count" 4096
  /-- A buffer is committed with no less than the configured size. -/
  capacity : ∀ i < s.memory.pool.size, (s.memory.pool.buf i).data.isSome →
    intD m "staging_pool.buffer_capacity_bytes" 1048576 ≤ (s.memory.pool.buf i).capacityBytes
  /-- No more callbacks run side by side than there are threads configured. -/
  busy : (s.writes.workers.pool.busy : Int) ≤ intD m "worker_pool.threads" 1
  /-- Whatever the watermarks and the queue capacity of the manifest are, no write waits for room
  in the queue, and one is refused only when 1024 are queued. -/
  unblocked : ∀ c req, s.writes.workers.pool.submitter c ≠ .waiting req
  queued : s.writes.workers.pool.writeQueue.length ≤ 1024
  refusal : s.writes.workers.pool.refusal =
    if 1024 ≤ s.writes.workers.pool.writeQueue.length then some .queueFull else none

/-- **The limits of the manifest are kept to** in every run of a core that `init` has built from
it, and its section `backpressure` has no effect. -/
theorem limits_kept {call : InitCall} {outCore : Bool}
    (hs : ∀ m, call.document lib = some (.ok m) → SignedInts m)
    (hrun : call.run lib outCore = .done (.ok, some core)) {s₀ : IoRun} (h₀ : BuiltAs core s₀)
    (h : system.After s₀ s) : ∃ m, call.document lib = some (.ok m) ∧ KeepsTo m s := by
  rcases InitCall.run_cases hs with ⟨code, -, hnone⟩ | ⟨core', m, hcore, hdoc, hbuilt⟩
  · rw [hnone] at hrun
    cases hrun
  rw [hcore] at hrun
  cases hrun
  obtain ⟨n, hworkers, hn, hthreads⟩ := hbuilt.workerPool
  -- no step changes the limits of the pool or of the queue
  obtain ⟨hisolated, hconfig⟩ := configured hworkers hn h₀ h
  obtain ⟨hcount, hmax, hcapacity, -⟩ := hconfig.staging
  have hwf := hisolated.owned.wf
  refine ⟨m, hdoc, ⟨?_, ?_⟩, fun i hi hdata => ?_, ?_, hconfig.unthrottled.unblocked, ?_, ?_⟩
  · rw [← hbuilt.bufferCount]
    exact_mod_cast hcount ▸ hwf.count_le
  · rw [← hbuilt.maxBufferCount]
    -- the pool was built to grow, up to the maximum of the manifest
    have hceiling : (StagingPool.create core.stagingPool).maxBufferCount =
        core.stagingPool.maxBufferCount := if_neg (by rw [hbuilt.mode]; exact nofun)
    exact_mod_cast (hmax.trans hceiling) ▸ hwf.size_le
  · rw [← hbuilt.bufferCapacity]
    exact_mod_cast hcapacity ▸ hwf.committed i hi hdata
  · rw [← hthreads, ← hconfig.threads]
    -- a worker has one task at a time
    have hone : ∀ b : Worker Closure, b.busy ≤ 1 := fun b => by cases b <;> simp [Worker.busy]
    exact_mod_cast Lts.tally_le_of_injOn hone id (fun i hi _ => hi) fun _ _ _ _ _ _ heq => heq
  · have hbounded := hconfig.unthrottled.bounded
    rwa [hconfig.backpressure] at hbounded
  · rw [WorkerPool.refusal, hconfig.backpressure]
    rfl

/-- A manifest of one thread and two buffers, with a queue of one place and a watermark at it. -/
def narrowConf : Conf :=
  ConfigLoader.intDocument [("staging_pool.buffer_count", 2),
    ("staging_pool.buffer_capacity_bytes", 8), ("staging_pool.max_buffer_count", 2),
    ("backpressure.high_watermark", 1), ("backpressure.queue_capacity", 1)]

def narrowLib : ConfLibrary := ⟨fun _ => .ok narrowConf, fun _ => .ok narrowConf⟩

def narrowCall : InitCall := .file (some "manifest.yaml")

def narrowCore : Core where
  stagingPool :=
    { PoolRun.pairArgs with timeoutMs := 5000, mode := .grow, timeout_range := by decide }
  workerPool := some {}
  stagingTimeoutMs := 5000

def narrowHost : IoRun :=
  { byteHost with
    memory := .create narrowCore.stagingPool
    writes := .start narrowCore.stagingPool 1 {} fun d => UInt64.ofNat d
    queues := fun _ => .start 1 0 [] ⟨some .u8, ⟨1, fun _ => 1, fun _ => 0⟩, 1⟩
      narrowCore.stagingPool }

/-- Two writes are queued at once, although the manifest has one place for them. -/
theorem limits_kept_of_narrow :
    ∃ s, narrowCall.run narrowLib true = .done (.ok, some narrowCore) ∧
      BuiltAs narrowCore narrowHost ∧
      system.replay (fun _ _ => True) narrowHost (overwriteOps 0 8 ++ overwriteOps 1 9) = some s ∧
      s.writes.workers.pool.writeQueue.length = 2 ∧
      intD narrowConf "backpressure.queue_capacity" 1024 = 1 ∧ s.memory.pool.size = 2 ∧
      KeepsTo narrowConf s := by
  -- two writes wait in a queue of capacity one, for no watermark is set
  have hrun : ((system.replay (fun _ _ => True) narrowHost
      (overwriteOps 0 8 ++ overwriteOps 1 9)).map fun s =>
        (s.writes.workers.pool.writeQueue.length, s.memory.pool.size)) = some (2, 2) := by
    decide +kernel
  obtain ⟨s, hs, hobs⟩ := Option.map_eq_some_iff.mp hrun
  simp only [Prod.mk.injEq] at hobs
  obtain ⟨hqueue, hsize⟩ := hobs
  have hbuilt : BuiltAs narrowCore narrowHost :=
    ⟨_, _, rfl, rfl, rfl, rfl, fun _ => ⟨_, _, _, _, rfl⟩⟩
  have hinit : narrowCall.run narrowLib true = .done (.ok, some narrowCore) := rfl
  have hsigned : ∀ m, narrowCall.document narrowLib = some (.ok m) → SignedInts m := by
    rintro m hm
    obtain rfl : narrowConf = m := by
      simpa [InitCall.document, narrowCall, narrowLib] using hm
    exact ConfigLoader.signedInts_intDocument (by decide)
  obtain ⟨m, hm, hkeeps⟩ := limits_kept hsigned hinit hbuilt (.of_replay _ hs)
  obtain rfl : narrowConf = m := by
    simpa [InitCall.document, narrowCall, narrowLib] using hm
  exact ⟨s, hinit, hbuilt, hs, hqueue, rfl, hsize, hkeeps⟩

end IoRun

end Amio
