import Amio.Boundary.SharedPool

/-!
# Snapshot isolation

A core with any number of writes, prefetch queues and views over one staging pool, and the host
memory that the writes copy from. Each step is a step of the write path or of a queue as modelled
before, on the shared pool: `asWrite` and `asQueue` are what one side sees of it, where everybody
else is "other". The pool is carried with its addresses (`PoolMemory`).

`amio.h` lets the caller modify or free `host_data` after the call has returned. Here the host may
do so earlier, as soon as the copy is made: `mutate` changes a region of its memory at any time
except while a call that has not yet made its copy reads it.

The result is `snapshot_isolation`: what the driver is given is what the host passed, whatever the
host and the other users of the pool do later.
-/

namespace Amio

open StagingPool (Spared)

/-- Who owns a buffer: a write, or a party of a queue. -/
inductive Agent
  | write (c : Nat)
  | queue (k : Nat) (keeper : Keeper)
  deriving DecidableEq

/-- An owner as the write path sees it. -/
def Agent.holder : Agent → Holder
  | .write c => .write c
  | .queue _ _ => .other

/-- An owner as queue `k` sees it. -/
def Agent.keeper (k : Nat) : Agent → Keeper
  | .write _ => .other
  | .queue k' keeper => if k' = k then keeper else .other

/-- The owner that the write path means, unless it means somebody else. -/
def Holder.agent : Holder → Option Agent
  | .write c => some (.write c)
  | .other => none

/-- The owner that queue `k` means. -/
def Keeper.agent (k : Nat) : Keeper → Option Agent
  | .other => none
  | keeper => some (.queue k keeper)

/-- The owners after a step of one side, which sees `now`: what is somebody else's stays so. -/
def merge {Ω : Type} (agent : Ω → Option Agent) (before : Nat → Option Agent)
    (now : Nat → Option Ω) (b : Nat) : Option Agent :=
  (now b).bind fun x => (agent x).or (before b)

/-- Whether a call has still to read the host memory. -/
def HostPc.reading : HostPc → Bool
  | .checked | .blocked | .acquired => true
  | _ => false

/-- A core, and the host memory by regions. `source c` is the region that write `c` was given, and
`passed c` what it held at the call. -/
structure IoRun where
  memory : PoolMemory
  owner : Nat → Option Agent
  writes : WriteRun
  queues : Nat → PrefetchRun
  host : Nat → List UInt8
  source : Nat → Nat
  passed : Nat → List UInt8

inductive IoOp
  | call (args : WriteArgs) (region : Nat)
  | copy (c : Nat)
  | write (op : WriteOp)
  | read (k : Nat) (op : ReadOp)
  | mutate (region : Nat) (bytes : List UInt8)

namespace IoRun

/-- The write path on a pool that it shares. -/
def shareWrite (m : PoolMemory) (owner : Nat → Option Agent) (w : WriteRun) : WriteRun :=
  { w with staging := m.pool, owner := fun b => (owner b).map Agent.holder }

/-- Queue `k` on a pool that it shares. -/
def shareQueue (m : PoolMemory) (owner : Nat → Option Agent) (k : Nat) (q : PrefetchRun) :
    PrefetchRun :=
  { q with stage := { q.stage with
      pool := m.pool, owner := fun b => (owner b).map (Agent.keeper k) } }

variable (s : IoRun)

def asWrite : WriteRun := shareWrite s.memory s.owner s.writes

def asQueue (k : Nat) : PrefetchRun := shareQueue s.memory s.owner k (s.queues k)

/-- The memory after a list of pool operations. -/
def run (m : PoolMemory) (acts : List PoolAct) : PoolMemory :=
  acts.foldl (fun m op => (m.act op).2) m

/-- A step of the write path. -/
def writeStep (op : WriteOp) : Option IoRun :=
  (s.asWrite.step op).map fun w =>
    { s with
      memory := run s.memory (s.asWrite.acts op)
      owner := merge Holder.agent s.owner w.owner
      writes := w }

/-- A step of queue `k`. -/
def readStep (k : Nat) (op : ReadOp) : Option IoRun :=
  ((s.asQueue k).step op).map fun q =>
    { s with
      memory := run s.memory ((s.asQueue k).acts op)
      owner := merge (Keeper.agent k) s.owner q.stage.owner
      queues := Function.update s.queues k q }

/-- A call has still to read `region`. -/
def readsRegion (region : Nat) : Bool :=
  (List.range s.writes.ncalls).any fun c =>
    decide (s.source c = region) && (s.writes.calls c).host.reading

def step : IoOp → Option IoRun
  | .call args region =>
    (s.writeStep (.call args)).map fun s' =>
      { s' with
        source := Function.update s.source s.writes.ncalls region
        passed := Function.update s.passed s.writes.ncalls (s.host region) }
  -- `std::memcpy` from the host memory as it is now
  | .copy c =>
    s.writeStep (.host c (.copy ((s.host (s.source c)).take (s.writes.calls c).args.payloadBytes)))
  -- calls and copies are made with their region, and the queues stand for the other users
  | .write (.call _) | .write (.host _ (.copy _)) | .write (.other _) => none
  | .write op => s.writeStep op
  | .read _ (.other _) => none
  | .read k op => s.readStep k op
  | .mutate region bytes =>
    if s.readsRegion region then none
    else some { s with host := Function.update s.host region bytes }

def system : Lts.System IoRun IoOp where
  init s := ∃ a n bp ids, n ≤ kMaxThreadCount ∧ s.memory = .create a ∧
    s.owner = (fun _ => none) ∧ s.writes = .start a n bp ids ∧
    ∀ k, ∃ depth id name info, s.queues k = .start depth id name info a
  step := step

/-! ### The parts that keep to themselves -/

section Reowned

variable {p p' : StagingPool}

/-- Who the owners are does not matter to the pool. -/
theorem ownedBy_congr {Ω Ω' : Type} {owner : Nat → Option Ω} {owner' : Nat → Option Ω'}
    (h : p.OwnedBy owner) (hnone : ∀ b, owner' b = none ↔ owner b = none) : p.OwnedBy owner' where
  wf := h.wf
  held b ω hb := by
    have hne : owner b ≠ none := by
      rw [Ne, ← hnone b, hb]
      exact nofun
    obtain ⟨ω', hω'⟩ := Option.ne_none_iff_exists'.mp hne
    exact h.held b ω' hω'
  free b hlt hb := h.free b hlt ((hnone b).mp hb)

/-- The write path after a step of somebody else. -/
theorem good_reowned {w : WriteRun} {owner' : Nat → Option Holder} (h : w.Good)
    (howned : p'.OwnedBy owner')
    (hkeep : ∀ b d, w.owner b = some (.write d) →
      owner' b = some (.write d) ∧ p'.buf b = w.staging.buf b) :
    WriteRun.Good { w with staging := p', owner := owner' } where
  toInv := { h.toInv with }
  toStaged := h.toStaged.other howned hkeep
  logged := h.logged
  failing := { h.failing with }

/-- A queue after a step of somebody else. -/
theorem custody_reowned {q : PrefetchRun} {owner' : Nat → Option Keeper} (h : q.Custody)
    (howned : p'.OwnedBy owner')
    (hkeep : ∀ b k, k ≠ .other → (owner' b = some k ↔ q.stage.owner b = some k)) :
    PrefetchRun.Custody { q with stage := { q.stage with pool := p', owner := owner' } } where
  owned := howned
  claims b k := by
    by_cases hk : k = .other
    · subst hk
      exact Iff.rfl
    · rw [hkeep b k hk, h.claims]
      cases k with
      | other => exact absurd rfl hk
      | staged | fetch | caller => exact Iff.rfl
  released := h.released

end Reowned

section Merge

variable {Ω Ω' : Type} {view : Agent → Ω} {view' : Agent → Ω'} {agent : Ω → Option Agent} {x : Ω}
  {y y' : Ω'} {before : Nat → Option Agent} {now : Nat → Option Ω} {p p' : StagingPool}

/-- One side's way of naming the owners: `x` is everybody else. -/
structure Naming (view : Agent → Ω) (agent : Ω → Option Agent) (x : Ω) : Prop where
  other : agent x = none
  own : ∀ y, y ≠ x → ∃ a, agent y = some a ∧ view a = y

/-- The owners as the write path names them. -/
theorem holders : Naming Agent.holder Holder.agent .other where
  other := rfl
  own y hy := by
    cases y with
    | write c => exact ⟨_, rfl, rfl⟩
    | other => exact absurd rfl hy

/-- The owners as a queue names them. -/
theorem keepers (k : Nat) : Naming (Agent.keeper k) (Keeper.agent k) .other where
  other := rfl
  own y hy := by
    cases y with
    | other => exact absurd rfl hy
    | staged | fetch | caller => exact ⟨_, rfl, if_pos rfl⟩

/-- What is somebody else's keeps its owner; what is not has an owner of this side, or none. -/
theorem Naming.merge_cases (h : Naming view agent x)
    (hspared : Spared x (fun b => (before b).map view) now p p') (b : Nat) :
    (now b = some x ∧ merge agent before now b = before b ∧ (before b).map view = some x) ∨
      ((before b).map view ≠ some x ∧ now b ≠ some x ∧
        (merge agent before now b).map view = now b) := by
  by_cases hb : now b = some x
  · refine .inl ⟨hb, ?_, (hspared b).1.mp hb⟩
    simp [merge, hb, h.other]
  · refine .inr ⟨mt (hspared b).1.mpr hb, hb, ?_⟩
    cases hnow : now b with
    | none => simp [merge, hnow]
    | some y =>
      obtain ⟨a, ha, hview⟩ := h.own y fun hy => hb (hnow.trans (congrArg some hy))
      simp [merge, hnow, ha, hview]

/-- The side sees the owners as its step has left them. -/
theorem Naming.merge_view (h : Naming view agent x)
    (hspared : Spared x (fun b => (before b).map view) now p p') :
    (fun b => (merge agent before now b).map view) = now := by
  funext b
  rcases h.merge_cases hspared b with ⟨hnow, hmerge, hbefore⟩ | ⟨-, -, hview⟩
  · rw [hmerge, hbefore, hnow]
  · exact hview

/-- Another side, for which this one is `y'`, sees no change of its own buffers. -/
theorem Naming.merge_elsewhere (h : Naming view agent x)
    (hspared : Spared x (fun b => (before b).map view) now p p')
    (hview' : ∀ a, view a ≠ x → view' a = y') (hne : y ≠ y') (b : Nat) :
    (merge agent before now b).map view' = some y ↔ (before b).map view' = some y := by
  rcases h.merge_cases hspared b with ⟨-, hmerge, -⟩ | ⟨hbefore, hnow, hview⟩
  · rw [hmerge]
  · have hno : ∀ o : Option Agent, o.map view ≠ some x → o.map view' ≠ some y := by
      intro o ho hy
      obtain ⟨a, rfl, ha⟩ := Option.map_eq_some_iff.mp hy
      exact hne (ha.symm.trans (hview' a fun hx => ho (congrArg some hx)))
    exact iff_of_false (hno _ (hview ▸ hnow)) (hno _ hbefore)

end Merge

/-! ### The invariant -/

/-- What the write calls know of the host memory. -/
structure Sourced (w : WriteRun) (host : Nat → List UInt8) (source : Nat → Nat)
    (passed : Nat → List UInt8) : Prop where
  reading : ∀ c, c < w.ncalls → (w.calls c).host.reading = true → host (source c) = passed c
  copied : ∀ c, (w.calls c).host.hasCopied = true →
    (w.calls c).snapshot = (passed c).take (w.calls c).args.payloadBytes ∧
      (w.calls c).snapshot.length = (w.calls c).args.payloadBytes

structure Isolated (s : IoRun) : Prop where
  owned : s.memory.pool.OwnedBy s.owner
  roomy : s.memory.Roomy
  writes : s.asWrite.Good
  books : ∀ k, (s.asQueue k).Books
  custody : ∀ k, (s.asQueue k).Custody

variable {s} {s' : IoRun} {m : PoolMemory}

/-- The pool after a list of operations. -/
theorem run_pool (acts : List PoolAct) : (run m acts).pool = acts.foldl StagingPool.act m.pool := by
  induction acts generalizing m with
  | nil => rfl
  | cons op acts ih =>
    show (run (m.act op).2 acts).pool = _
    rw [ih, PoolMemory.act_pool, List.foldl_cons]

/-- The memory stays large enough. -/
theorem run_roomy (h : m.Roomy) (acts : List PoolAct) : (run m acts).Roomy := by
  induction acts generalizing m with
  | nil => exact h
  | cons op acts ih => exact ih (h.act op)

/-- **A step of the write path** is none of the queues' business. -/
theorem Isolated.writeStep (h : Isolated s) {op : WriteOp} (hop : ∀ o, op ≠ .other o)
    (hstep : s.writeStep op = some s') : Isolated s' ∧ s.asWrite.step op = some s'.asWrite := by
  obtain ⟨w, hw, rfl⟩ := Option.map_eq_some_iff.mp hstep
  have hpool : (run s.memory (s.asWrite.acts op)).pool = w.staging := by
    rw [run_pool]
    exact (WriteRun.acts_pool hop hw).symm
  have hspared := WriteRun.step_spares h.writes.toInv h.writes.toStaged hop hw
  have hgood : w.Good := h.writes.step (WriteRun.step_cases hw)
  -- the owners as the write path sees them are its own
  have hview := holders.merge_view hspared
  have howned : (run s.memory (s.asWrite.acts op)).pool.OwnedBy
      (merge Holder.agent s.owner w.owner) := by
    rw [hpool]
    refine ownedBy_congr hgood.owned fun b => ?_
    rw [← congrFun hview b, Option.map_eq_none_iff]
  have hsees : shareWrite (run s.memory (s.asWrite.acts op))
      (merge Holder.agent s.owner w.owner) w = w := by
    rw [shareWrite, hview, hpool]
  -- what a queue owns is what it owned
  have hqueues : ∀ k b keeper, keeper ≠ Keeper.other →
      ((merge Holder.agent s.owner w.owner b).map (Agent.keeper k) = some keeper ↔
        (s.owner b).map (Agent.keeper k) = some keeper) := by
    intro k b keeper hne
    refine holders.merge_elsewhere hspared (fun a ha => ?_) hne b
    cases a with
    | write c => rfl
    | queue k' keeper' => exact absurd rfl ha
  refine ⟨⟨howned, run_roomy h.roomy _, ?_, fun k => ?_, fun k => ?_⟩, ?_⟩
  · show (shareWrite (run s.memory (s.asWrite.acts op)) (merge Holder.agent s.owner w.owner) w).Good
    rw [hsees]
    exact hgood
  · exact (h.books k).of_queue rfl rfl rfl (fun _ => rfl) rfl
  · have hcustody := custody_reowned (h.custody k)
      (ownedBy_congr howned fun b => Option.map_eq_none_iff) (hqueues k)
    exact hcustody
  · exact hw.trans (congrArg some hsees.symm)

/-- **A step of a queue** is none of the others' business. -/
theorem Isolated.readStep (h : Isolated s) {k : Nat} {op : ReadOp} (hop : ∀ o, op ≠ .other o)
    (hstep : s.readStep k op = some s') : Isolated s' := by
  obtain ⟨q, hq, rfl⟩ := Option.map_eq_some_iff.mp hstep
  have hpool : (run s.memory ((s.asQueue k).acts op)).pool = q.stage.pool := by
    rw [run_pool]
    exact (PrefetchRun.acts_pool (h.custody k) hop hq).symm
  have hspared := PrefetchRun.step_spares (h.custody k) hop hq
  have hbooks : q.Books := (h.books k).step hq
  have hcustody : q.Custody := (h.custody k).step (h.books k) hq
  have hview := (keepers k).merge_view hspared
  have howned : (run s.memory ((s.asQueue k).acts op)).pool.OwnedBy
      (merge (Keeper.agent k) s.owner q.stage.owner) := by
    rw [hpool]
    refine ownedBy_congr hcustody.owned fun b => ?_
    rw [← congrFun hview b, Option.map_eq_none_iff]
  have hsees : shareQueue (run s.memory ((s.asQueue k).acts op))
      (merge (Keeper.agent k) s.owner q.stage.owner) k q = q := by
    rw [shareQueue, hview, hpool]
  have hqueues : ∀ j, j ≠ k → ∀ b keeper, keeper ≠ Keeper.other →
      ((merge (Keeper.agent k) s.owner q.stage.owner b).map (Agent.keeper j) = some keeper ↔
        (s.owner b).map (Agent.keeper j) = some keeper) := by
    intro j hj b keeper hne
    refine (keepers k).merge_elsewhere hspared (fun a ha => ?_) hne b
    cases a with
    | write c => exact absurd rfl ha
    | queue k' keeper' =>
      by_cases hk : k' = k
      · subst hk
        exact if_neg (Ne.symm hj)
      · exact absurd (if_neg hk) ha
  refine ⟨howned, run_roomy h.roomy _, ?_, fun j => ?_, fun j => ?_⟩
  · have hkeep : ∀ b d, s.asWrite.owner b = some (.write d) →
        (merge (Keeper.agent k) s.owner q.stage.owner b).map Agent.holder = some (.write d) ∧
          (run s.memory ((s.asQueue k).acts op)).pool.buf b = s.asWrite.staging.buf b := by
      intro b d hb
      obtain ⟨a, ha, hholder⟩ := Option.map_eq_some_iff.mp hb
      -- a write's buffer is one that the queue calls "other"
      have hother : (s.asQueue k).stage.owner b = some .other := by
        cases a with
        | write c => simp [asQueue, shareQueue, ha, Agent.keeper]
        | queue => cases hholder
      refine ⟨?_, ?_⟩
      · rcases (keepers k).merge_cases hspared b with ⟨-, hmerge, -⟩ | ⟨hne, -, -⟩
        · rw [hmerge, ha, Option.map_some, hholder]
        · exact absurd hother hne
      · rw [hpool]
        exact (hspared b).2 hother
    have hgood := good_reowned h.writes (ownedBy_congr howned fun b => Option.map_eq_none_iff) hkeep
    exact hgood
  · show (shareQueue _ _ j (Function.update s.queues k q j)).Books
    by_cases hj : j = k
    · subst hj
      rw [Function.update_self, hsees]
      exact hbooks
    · rw [Function.update_of_ne hj]
      exact (h.books j).of_queue rfl rfl rfl (fun _ => rfl) rfl
  · show (shareQueue _ _ j (Function.update s.queues k q j)).Custody
    by_cases hj : j = k
    · subst hj
      rw [Function.update_self, hsees]
      exact hcustody
    · rw [Function.update_of_ne hj]
      have hother := custody_reowned (h.custody j)
        (ownedBy_congr howned fun b => Option.map_eq_none_iff) (hqueues j hj)
      exact hother

/-! ### The host memory -/

/-- What the steps between the call and its return do to a write, the copy apart. -/
structure Carried (x x' : WriteCall) : Prop where
  args : x'.args = x.args
  snapshot : x'.snapshot = x.snapshot
  reading : x'.host.reading = true → x.host.reading = true
  copied : x'.host.hasCopied = true → x.host.hasCopied = true

theorem Carried.refl (x : WriteCall) : Carried x x := ⟨rfl, rfl, id, id⟩

/-- What a step carries over of a call. -/
theorem carried {w w' : WriteRun} {op : WriteOp} (hcall : ∀ args, op ≠ .call args)
    (hcopy : ∀ c bytes, op ≠ .host c (.copy bytes)) (h : WriteRun.Step w op w') (c : Nat) :
    Carried (w.calls c) (w'.calls c) ∧ w'.ncalls = w.ncalls := by
  have hset : ∀ {d : Nat} {x : WriteCall}, Carried (w.calls d) x →
      Carried (w.calls c) (Function.update w.calls d x c) := by
    intro d x hx
    by_cases hc : c = d
    · subst hc
      rw [Function.update_self]
      exact hx
    · rw [Function.update_of_ne hc]
      exact .refl _
  cases h with
  | call args => exact absurd rfl (hcall args)
  | copied bytes => exact absurd rfl (hcopy _ bytes)
  -- a call that is still acquiring has not read the host's bytes
  | got hc pc acq =>
    refine ⟨hset ⟨rfl, rfl, fun _ => ?_, fun hcopied => ?_⟩, rfl⟩
    · rcases pc with pc | pc <;> (rw [pc]; rfl)
    · cases hcopied
  | denied hc pc next acq =>
    refine ⟨hset ⟨rfl, rfl, fun _ => ?_, fun hcopied => ?_⟩, rfl⟩
    · rcases pc with pc | pc <;> (rw [pc]; rfl)
    · rcases next with rfl | rfl | rfl <;> cases hcopied
  -- after the copy the bytes are not looked at again
  | inserted hc pc => exact ⟨hset ⟨rfl, rfl, nofun, fun _ => by rw [pc]; rfl⟩, rfl⟩
  | entered hc pc hr => exact ⟨hset ⟨rfl, rfl, nofun, fun _ => by rw [pc]; rfl⟩, rfl⟩
  | submitted hc pc hsub => exact ⟨hset ⟨rfl, rfl, nofun, fun _ => by rw [pc]; rfl⟩, rfl⟩
  | counted hc pc => exact ⟨hset ⟨rfl, rfl, nofun, fun _ => by rw [pc]; rfl⟩, rfl⟩
  | returned hc pc => exact ⟨hset ⟨rfl, rfl, nofun, fun _ => by rw [pc]; rfl⟩, rfl⟩
  | began | answered | completed | failed | coded | marked | firstCode | gaveBack | subtracted
  | locked => exact ⟨hset ⟨rfl, rfl, id, id⟩, rfl⟩
  | sectioned | advanced | otherGot | otherDenied | otherRelease | otherFill | otherHandles
  | flushBegan | flushRead | flushTimeout | flushFinish => exact ⟨.refl _, rfl⟩

section Sourced

variable {w w' : WriteRun} {host : Nat → List UInt8} {source : Nat → Nat}
  {passed : Nat → List UInt8} {c : Nat}

/-- A step that neither calls nor copies. -/
theorem Sourced.carry (h : Sourced w host source passed)
    (hcalls : ∀ c, Carried (w.calls c) (w'.calls c) ∧ w'.ncalls = w.ncalls) :
    Sourced w' host source passed where
  reading c hc hreading := h.reading c ((hcalls c).2 ▸ hc) ((hcalls c).1.reading hreading)
  copied c hcopied := by
    obtain ⟨hcarried, -⟩ := hcalls c
    rw [hcarried.snapshot, hcarried.args]
    exact h.copied c (hcarried.copied hcopied)

/-- A call that begins has copied nothing. -/
theorem not_hasCopied_of_entry (args : WriteArgs) :
    (if args.check = .ok then HostPc.checked else .returned args.check).hasCopied = false := by
  have hentry := args.entry_hasBuffer
  revert hentry
  generalize (if args.check = AmioErr.ok then HostPc.checked else .returned args.check) = pc
  cases pc <;> simp [HostPc.hasBuffer, HostPc.hasCopied]

/-- A call begins. -/
theorem Sourced.call (h : Sourced w host source passed) (args : WriteArgs) (region : Nat) :
    Sourced (w.beginCall args) host (Function.update source w.ncalls region)
      (Function.update passed w.ncalls (host region)) := by
  have hold : ∀ c, c ≠ w.ncalls → (w.beginCall args).calls c = w.calls c :=
    fun c hc => Function.update_of_ne hc _ _
  refine ⟨fun c hc hreading => ?_, fun c hcopied => ?_⟩
  · by_cases hnew : c = w.ncalls
    -- the new call reads the region that it was given
    · rw [hnew, Function.update_self, Function.update_self]
    · rw [Function.update_of_ne hnew, Function.update_of_ne hnew]
      have hlt : c < w.ncalls + 1 := hc
      exact h.reading c (by omega) (hold c hnew ▸ hreading)
  · by_cases hnew : c = w.ncalls
    · subst hnew
      -- and has copied nothing yet
      have hself : ((w.beginCall args).calls w.ncalls).host =
          if args.check = .ok then .checked else .returned args.check := by
        simp [WriteRun.beginCall, WriteRun.setCall]
      rw [hself, not_hasCopied_of_entry] at hcopied
      cases hcopied
    · rw [Function.update_of_ne hnew, hold c hnew]
      exact h.copied c (hold c hnew ▸ hcopied)

/-- The copy is made: the host memory is still what was passed. -/
theorem Sourced.copy (h : Sourced w host source passed) (hc : c < w.ncalls)
    (hpc : (w.calls c).host = .acquired)
    (hlen : ((host (source c)).take (w.calls c).args.payloadBytes).length =
      (w.calls c).args.payloadBytes)
    (hcalls : w'.calls = Function.update w.calls c { w.calls c with
      host := .copied, snapshot := (host (source c)).take (w.calls c).args.payloadBytes })
    (hncalls : w'.ncalls = w.ncalls) : Sourced w' host source passed := by
  have hpassed := h.reading c hc (by rw [hpc]; rfl)
  rw [hpassed] at hcalls hlen
  refine ⟨fun d hd hreading => ?_, fun d hcopied => ?_⟩
  -- the call has copied, so that it does not read its source any more
  · rw [hcalls] at hreading
    by_cases hdc : d = c
    · subst hdc
      rw [Function.update_self] at hreading
      cases hreading
    · rw [Function.update_of_ne hdc] at hreading
      exact h.reading d (hncalls ▸ hd) hreading
  -- what it has copied are the bytes that were passed
  · rw [hcalls] at hcopied ⊢
    by_cases hdc : d = c
    · subst hdc
      rw [Function.update_self]
      exact ⟨rfl, hlen⟩
    · rw [Function.update_of_ne hdc] at hcopied ⊢
      exact h.copied d hcopied

end Sourced

/-! ### Runs -/

/-- A step of the write path inside a core. -/
theorem step_write {op : WriteOp} (h : s.step (.write op) = some s') :
    s.writeStep op = some s' ∧ (∀ o, op ≠ .other o) ∧ (∀ args, op ≠ .call args) ∧
      ∀ c bytes, op ≠ .host c (.copy bytes) := by
  cases op with
  | call | other => cases h
  | host c op =>
    cases op with
    | copy => cases h
    | acquire | giveUp | insert | enter | submitted | count | ret =>
      exact ⟨h, by simp, by simp, by simp⟩
  | callback | worker | flush | flushStep => exact ⟨h, by simp, by simp, by simp⟩

/-- A step of a queue inside a core. -/
theorem step_read {k : Nat} {op : ReadOp} (h : s.step (.read k op) = some s') :
    s.readStep k op = some s' ∧ ∀ o, op ≠ .other o := by
  cases op with
  | other => cases h
  | begin | call | submit | expire | fetch | release | cancel | shutdown => exact ⟨h, by simp⟩

/-- **Every step keeps the users of the pool apart.** -/
theorem Isolated.step (h : Isolated s) {op : IoOp} (hstep : s.step op = some s') :
    Isolated s' := by
  cases op with
  | call args region =>
    simp only [IoRun.step] at hstep
    obtain ⟨s₁, hs₁, rfl⟩ := Option.map_eq_some_iff.mp hstep
    have hwrite := (h.writeStep (by simp) hs₁).1
    exact ⟨hwrite.owned, hwrite.roomy, hwrite.writes, hwrite.books, hwrite.custody⟩
  | copy c => exact (h.writeStep (by simp) hstep).1
  | write op =>
    obtain ⟨hwrite, hop, -⟩ := step_write hstep
    exact (h.writeStep hop hwrite).1
  | read k op =>
    obtain ⟨hread, hop⟩ := step_read hstep
    exact h.readStep hop hread
  -- the host's own memory is no part of the core
  | mutate region bytes =>
    simp only [IoRun.step] at hstep
    split at hstep
    · cases hstep
    · obtain rfl := Option.some.inj hstep
      exact ⟨h.owned, h.roomy, h.writes, h.books, h.custody⟩

theorem step_copy {w w' : WriteRun} {c : Nat} {bytes : List UInt8}
    (h : w.step (.host c (.copy bytes)) = some w') :
    c < w.ncalls ∧ (w.calls c).host = .acquired ∧
      bytes.length = (w.calls c).args.payloadBytes ∧
      w'.calls = Function.update w.calls c { w.calls c with host := .copied, snapshot := bytes } ∧
      w'.ncalls = w.ncalls := by
  simp only [WriteRun.step, Option.ite_none_right_eq_some] at h
  obtain ⟨hc, h⟩ := h
  cases hpc : (w.calls c).host with
  | acquired =>
    simp only [WriteRun.hostStep, hpc, Option.ite_none_right_eq_some] at h
    obtain ⟨hlen, h⟩ := h
    obtain rfl := Option.some.inj h
    exact ⟨hc, rfl, hlen, rfl, rfl⟩
  | _ => simp [WriteRun.hostStep, hpc] at h

/-- What the calls know of the host memory after a step. -/
theorem Sourced.step (h : Sourced s.writes s.host s.source s.passed) {op : IoOp}
    (hstep : s.step op = some s') : Sourced s'.writes s'.host s'.source s'.passed := by
  cases op with
  | call args region =>
    simp only [IoRun.step] at hstep
    obtain ⟨s₁, hs₁, rfl⟩ := Option.map_eq_some_iff.mp hstep
    obtain ⟨w, hw, rfl⟩ := Option.map_eq_some_iff.mp hs₁
    obtain rfl := Option.some.inj hw
    have hcall := h.call args region
    exact ⟨hcall.reading, hcall.copied⟩
  | copy c =>
    obtain ⟨w, hw, rfl⟩ := Option.map_eq_some_iff.mp hstep
    obtain ⟨hc, hpc, hlen, hcalls, hncalls⟩ := step_copy hw
    exact h.copy hc hpc hlen hcalls hncalls
  | write op =>
    obtain ⟨hwrite, -, hcall, hcopy⟩ := step_write hstep
    obtain ⟨w, hw, rfl⟩ := Option.map_eq_some_iff.mp hwrite
    have hcarried := carried hcall hcopy (WriteRun.step_cases hw)
    exact h.carry hcarried
  | read k op =>
    obtain ⟨hread, -⟩ := step_read hstep
    obtain ⟨q, hq, rfl⟩ := Option.map_eq_some_iff.mp hread
    exact h
  | mutate region bytes =>
    simp only [IoRun.step] at hstep
    split at hstep
    · cases hstep
    · next hfree =>
      obtain rfl := Option.some.inj hstep
      refine ⟨fun c hc hreading => ?_, h.copied⟩
      -- nobody who has still to copy was given this region
      have hne : s.source c ≠ region := by
        intro heq
        refine hfree (List.any_eq_true.mpr ⟨c, List.mem_range.mpr hc, ?_⟩)
        simp [heq, hreading]
      show Function.update s.host region bytes (s.source c) = s.passed c
      rw [Function.update_of_ne hne]
      exact h.reading c hc hreading

theorem Isolated.initial (hinit : system.init s) : Isolated s := by
  obtain ⟨a, n, bp, ids, -, hmemory, howner, hwrites, hqueues⟩ := hinit
  have hwrite : s.asWrite = .start a n bp ids := by
    simp only [asWrite, shareWrite, hmemory, howner, hwrites]
    rfl
  refine ⟨?_, ?_, ?_, fun k => ?_, fun k => ?_⟩
  · rw [hmemory, howner]
    exact .create Agent a
  · rw [hmemory]
    exact .create a
  · rw [hwrite]
    exact .initial a n bp ids
  all_goals
    obtain ⟨depth, id, name, info, hq⟩ := hqueues k
    have hqueue : s.asQueue k = .start depth id name info a := by
      simp only [asQueue, shareQueue, hmemory, howner, hq]
      rfl
    rw [hqueue]
  · exact .start depth id name info a
  · exact .start depth id name info a

/-- The users are apart and the bytes known, in every run. -/
theorem invariant (h : system.Reachable s) :
    Isolated s ∧ Sourced s.writes s.host s.source s.passed := by
  refine h.invariant (I := fun s => Isolated s ∧ Sourced s.writes s.host s.source s.passed)
    (fun s hinit => ⟨.initial hinit, ?_⟩) fun s op s' hs _ hstep =>
      ⟨hs.1.step hstep, hs.2.step hstep⟩
  obtain ⟨a, n, bp, ids, -, -, -, hwrites, -⟩ := hinit
  rw [hwrites]
  exact ⟨fun c hc => absurd hc (Nat.not_lt_zero c), nofun⟩

/-- **Snapshot isolation.** Whenever the driver is asked to write, it is given the bytes that the
host had passed at the call; and no operation of the pool on other buffers moves a held buffer,
changes its data pointer, its capacity or its contents, or hands it out again. -/
theorem snapshot_isolation (h : system.Reachable s) :
    (∀ w ∈ s.writes.driverLog,
      w.payload = (s.passed w.call).take (s.writes.calls w.call).args.payloadBytes ∧
        w.payload.length = (s.writes.calls w.call).args.payloadBytes) ∧
    ∀ b, b < s.memory.pool.size → (s.memory.pool.buf b).refCount ≠ 0 →
      ∀ op : PoolAct, op.subject ≠ some b →
        PoolMemory.Kept s.memory (s.memory.act op).2 b ∧
          (s.memory.act op).1 ≠ some (.got b) := by
  obtain ⟨hisolated, hsourced⟩ := invariant h
  constructor
  · intro w hw
    -- the log has one entry of the call, with its snapshot
    have hlog := hisolated.writes.logged w.call
    have hmem : w ∈ s.asWrite.driverLog.filter (·.call = w.call) :=
      List.mem_filter.mpr ⟨hw, by simp⟩
    rw [hlog] at hmem
    split at hmem
    · next hasked =>
      have hpayload : w.payload = (s.writes.calls w.call).snapshot :=
        congrArg DriverWrite.payload (List.mem_singleton.mp hmem)
      -- a callback that has asked the driver is past the copy
      have hcb : (s.asWrite.calls w.call).cb ≠ .waiting := by
        intro hwaiting
        rw [hwaiting] at hasked
        cases hasked
      have hpast := (hisolated.writes.toInv.past_of_cb hcb).1
      rw [hpayload]
      exact hsourced.copied w.call (HostPc.hasCopied_of_past hpast)
    · cases hmem
  · intro b hb hheld op hop
    exact PoolMemory.act_frame hisolated.owned.wf hisolated.roomy hb hheld hop

/-- A core with one worker, two buffers and no prefetch task, and the byte `7` in the host
memory. -/
def byteHost : IoRun where
  memory := .create PoolRun.pairArgs
  owner := fun _ => none
  writes := WriteRun.byteCore 1 {}
  queues := fun _ => .start 1 0 [] ⟨some .u8, ⟨1, fun _ => 1, fun _ => 0⟩, 1⟩ PoolRun.pairArgs
  host := fun _ => [7]
  source := fun _ => 0
  passed := fun _ => []

/-- The byte is overwritten between the copy and the callback. -/
def mutateOps : List IoOp :=
  [.call ⟨0, [97], false, some .u8, ⟨1, fun _ => 1, fun _ => 0⟩⟩ 0,
    .write (.host 0 (.acquire true)), .copy 0, .write (.host 0 .insert), .mutate 0 [9]] ++
    (WriteRun.submitOps 0 ++ WriteRun.executeOps 0 true).map .write

theorem snapshot_isolation_of_mutation :
    ∃ s, system.replay (fun _ _ => True) byteHost mutateOps = some s ∧
      s.host 0 = [9] ∧ s.writes.driverLog.map (·.payload) = [[7]] ∧
      ∀ w ∈ s.writes.driverLog,
        w.payload = (s.passed w.call).take (s.writes.calls w.call).args.payloadBytes := by
  have hrun : ((system.replay (fun _ _ => True) byteHost mutateOps).map fun s =>
      (s.host 0, s.writes.driverLog.map (·.payload))) = some ([9], [[7]]) := by decide +kernel
  obtain ⟨s, hs, hobs⟩ := Option.map_eq_some_iff.mp hrun
  simp only [Prod.mk.injEq] at hobs
  obtain ⟨hhost, hlog⟩ := hobs
  have hinit : system.init byteHost :=
    ⟨_, 1, _, _, by decide, rfl, rfl, rfl, fun _ => ⟨_, _, _, _, rfl⟩⟩
  have hreach : system.Reachable s := .of_replay _ hinit hs
  exact ⟨s, hs, hhost, hlog, fun w hw => ((snapshot_isolation hreach).1 w hw).1⟩

end IoRun

end Amio
