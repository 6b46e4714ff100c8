import Amio.Prefetch.Selection
import Amio.Drivers.NetCdfSlices

/-!
# Reading a netCDF variable through the prefetch queue

A queue whose fetches are answered by one driver, a fixed function of the capacity of the buffer and
of what it is asked for. Whatever threads call `get_buffer` and `schedule_next` and in whatever
order the workers run the fetches, a buffer that is handed out holds an answer of the driver to the
question that was asked (`holds_answer`). Nothing is said about reads that fail.

With the netCDF driver on an open file behind the queue of a variable, the buffer holds the elements
of the variable at the timestep, inside the box (`reads_the_file`).
-/

namespace Amio

/-- What a driver delivers into a buffer of the given capacity; `none` when it throws. -/
abbrev ReadFn := (capacity : Nat) → VarMeta → (timestep : Int) → Option Bbox → Option (List UInt8)

namespace PrefetchRun

variable {s s' : PrefetchRun} {c f : Nat} {op : ReadOp} {st : Stage} {pc : ReadPc} {read : ReadFn}

/-- What fetch `f` asks the driver. -/
def question (s : PrefetchRun) (f : Nat) : DriverRead :=
  s.stage.queue.driverRead (s.fetches f).timestep (s.fetches f).sel []

/-- The driver answers a fetch that has acquired buffer `buf`. -/
def answer (s : PrefetchRun) (read : ReadFn) (f buf : Nat) : Option (List UInt8) :=
  read (s.stage.pool.buf buf).capacityBytes (s.question f).varMeta (s.question f).timestep
    (s.question f).bbox

/-- The reads of the fetches are answered by `read`. -/
def AnsweredBy (s : PrefetchRun) (read : ReadFn) : ReadOp → Prop
  | .fetch f (.read payload) => ∀ buf ∈ (s.fetches f).phase.buffer, payload = s.answer read f buf
  | _ => True

instance : DecidablePred (s.AnsweredBy read)
  | .fetch _ (.read _) => inferInstanceAs (Decidable (∀ _ ∈ _, _ = _))
  | .fetch _ .start | .fetch _ (.acquire _) | .fetch _ (.giveUp _) | .fetch _ .mark =>
    .isTrue trivial
  | .begin .. | .call _ | .submit .. | .expire _ | .release _ | .cancel | .shutdown | .other _ =>
    .isTrue trivial

/-- Every read that was made is one that the driver answers in this way. -/
def Honest (s : PrefetchRun) (read : ReadFn) : Prop :=
  ∀ i r, s.stage.lastRead i = some r →
    ∃ capacity, read capacity r.varMeta r.timestep r.bbox = some r.payload

/-! ### Frames

The history of reads grows when a driver delivers, and in no other step. -/

/-- No section of a call reads from the driver. -/
theorem CallMove.lastRead (h : CallMove s c st pc) : st.lastRead = s.stage.lastRead := by
  cases h with
  | enter at_ kind kicked sec ends => exact sec.pruned.lastRead
  | first at_ sec ends => exact sec.pruned.lastRead
  | loop at_ sec ends => exact sec.pruned.lastRead
  | recheck at_ sec ends => exact sec.pruned.lastRead
  | kick | next | initial | track | skip => rfl

theorem afterAcquire_lastRead (s : PrefetchRun) (f : Nat) (onBlocked : FetchPhase)
    (res : StagingPool.Acquired × StagingPool) :
    (s.afterAcquire f onBlocked res).stage.lastRead = s.stage.lastRead := by
  unfold afterAcquire
  split <;> rfl

/-- A step of a fetch: it reads, or it leaves the history alone. -/
theorem fetchStep_lastRead {step : FetchOp} (h : s.fetchStep f step = some s') :
    (∃ payload buf, step = .read (some payload) ∧ (s.fetches f).phase = .acquired buf ∧
      s'.stage.lastRead = Function.update s.stage.lastRead buf
        (some { s.question f with payload := payload })) ∨
    s'.stage.lastRead = s.stage.lastRead := by
  unfold fetchStep at h
  dsimp only at h
  split at h
  · split at h <;> (obtain rfl := Option.some.inj h; exact .inr rfl)
  -- the three attempts to acquire a buffer
  · obtain rfl := Option.some.inj h
    exact .inr (afterAcquire_lastRead ..)
  · obtain rfl := Option.some.inj h
    exact .inr (afterAcquire_lastRead ..)
  · obtain rfl := Option.some.inj h
    exact .inr (afterAcquire_lastRead ..)
  · next payload buf hphase =>
    obtain rfl := Option.some.inj h
    exact .inl ⟨payload, buf, rfl, hphase, rfl⟩
  · obtain rfl := Option.some.inj h
    exact .inr rfl
  · split at h <;> (obtain rfl := Option.some.inj h; exact .inr rfl)
  · obtain rfl := Option.some.inj h
    exact .inr rfl
  · obtain rfl := Option.some.inj h
    exact .inr rfl
  · obtain rfl := Option.some.inj h
    exact .inr rfl
  · cases h

theorem cancelPending_lastRead (st : Stage) : st.cancelPending.lastRead = st.lastRead := by
  have hrelease : ∀ (l : List (Sigma fun _ : Int => Nat)) (st : Stage),
      (l.foldl (fun st e => st.release e.2) st).lastRead = st.lastRead := by
    intro l
    induction l with
    | nil => exact fun _ => rfl
    | cons e l ih => exact fun st => ih (st.release e.2)
  exact hrelease _ _

/-- A step of the queue: a fetch reads, or the history is left alone. -/
theorem step_lastRead (h : s.step op = some s') :
    (∃ f payload buf, op = .fetch f (.read (some payload)) ∧
      (s.fetches f).phase = .acquired buf ∧
      s'.stage.lastRead = Function.update s.stage.lastRead buf
        (some { s.question f with payload := payload })) ∨
    s'.stage.lastRead = s.stage.lastRead := by
  cases step_cases h with
  | begins kind t bbox => exact .inr rfl
  | calls lt ran =>
    obtain ⟨st, pc, rfl, hmove⟩ := callStep_cases ran
    exact .inr hmove.lastRead
  | submits lt ran =>
    obtain ⟨t, sel, next, -, -, rfl⟩ := submitStep_cases ran
    exact .inr rfl
  | @expires c s' lt ran =>
    obtain ⟨notified, status, out, st, -, hlast, rfl⟩ := expireStep_cases ran
    have hpruned := Stage.Pruned.lastCheck s.stage c (s.calls c).timestep
    rw [hlast] at hpruned
    exact .inr hpruned.lastRead
  -- only a fetch reads from the driver, into the buffer that it has acquired
  | fetches lt ran =>
    refine (fetchStep_lastRead ran).imp_left ?_
    rintro ⟨payload, buf, rfl, hphase, hread⟩
    exact ⟨_, payload, buf, rfl, hphase, hread⟩
  | releases lt ran =>
    obtain ⟨buf, -, -, rfl⟩ := releaseStep_cases ran
    exact .inr rfl
  | cancels => exact .inr (cancelPending_lastRead s.stage)
  | shuts => exact .inr rfl
  -- the other users of the pool do not touch what is recorded of the reads
  | @others use s' ran =>
    right
    cases use with
    | acquire r alloc final =>
      simp only [otherStep] at ran
      split at ran <;> (obtain rfl := Option.some.inj ran; rfl)
    | release buf | fill buf bytes =>
      simp only [otherStep, Option.ite_none_right_eq_some] at ran
      obtain ⟨-, ran⟩ := ran
      obtain rfl := Option.some.inj ran
      rfl

/-! ### What is handed out -/

/-- Every step leaves the answers honest. -/
theorem Honest.step (hs : s.Honest read) (hop : s.AnsweredBy read op) (h : s.step op = some s') :
    s'.Honest read := by
  rcases step_lastRead h with ⟨f, payload, buf, rfl, hphase, hread⟩ | hread
  · intro i r hr
    rw [hread] at hr
    -- the buffer that was read into, and the others
    by_cases hi : i = buf
    · subst hi
      rw [Function.update_self] at hr
      obtain rfl := Option.some.inj hr
      exact ⟨_, (hop i (by rw [hphase]; rfl)).symm⟩
    · rw [Function.update_of_ne hi] at hr
      exact hs i r hr
  · intro i r hr
    rw [hread] at hr
    exact hs i r hr

/-- **An answer of the driver to the question that was asked.** -/
theorem holds_answer
    (h : system.Reach (fun s op => s.timeoutMatches op = true ∧ s.AnsweredBy read op) s) {c : Nat}
    {out : Option Nat} (hpc : (s.calls c).pc = .returned .ok out)
    (hkind : (s.calls c).kind = .getBuffer) (hheld : (s.calls c).released = false) :
    ∃ i capacity, out = some i ∧ s.stage.owner i = some (.caller c) ∧
      read capacity ⟨s.stage.queue.datasetId, 0, s.stage.queue.varName, s.stage.queue.info.dtype,
          s.stage.queue.info.shape, (s.calls c).timestep⟩ (s.calls c).timestep
        ((s.calls c).bbox.map Bbox.toDriver) = some (s.stage.pool.payload i) := by
  have hinv : SelectionInv s ∧ s.Honest read := by
    refine h.invariant (I := fun s => SelectionInv s ∧ s.Honest read) ?_ ?_
    · rintro s ⟨depth, id, name, info, a, rfl⟩
      exact ⟨.start depth id name info a, fun _ _ => nofun⟩
    · rintro s op s' ⟨hs, hhonest⟩ ⟨hmatches, hanswered⟩ hstep
      exact ⟨hs.step hmatches hstep, hhonest.step hanswered hstep⟩
  obtain ⟨hs, hhonest⟩ := hinv
  obtain ⟨i, hi, howner, hholds⟩ := hs.right c out hpc hkind hheld
  obtain ⟨capacity, hread⟩ := hhonest i _ hholds
  exact ⟨i, capacity, hi, howner, hread⟩

end PrefetchRun

/-! ### The netCDF driver -/

namespace NetCdf

open RowMajor

/-- What `sync_fetch` makes of a box selects the same. -/
theorem selection_toDriver (shape : Shape) (bbox : Option Bbox) :
    selection shape (bbox.map Bbox.toDriver) = selection shape bbox := by
  cases bbox with
  | none => rfl
  | some b =>
    have hlt : ∀ k ∈ dims b.rank, ((k : Nat) : Int) < b.rank := fun k hk => mem_dims.mp hk
    simp only [Option.map_some, selection, Prod.mk.injEq]
    refine ⟨List.map_congr_left fun k hk => ?_, selectedExtents_toDriver shape (some b),
      List.map_congr_left fun k hk => ?_⟩
    all_goals simp only [Bbox.toDriver, if_pos (hlt k hk)]

/-- The driver's box is the host's. -/
theorem read_toDriver (d : Driver) (capacity : Nat) (m : VarMeta) (t : Int) (bbox : Option Bbox) :
    d.read capacity m t (bbox.map Bbox.toDriver) = d.read capacity m t bbox := by
  simp only [Driver.read, Driver.tryRead, hyperslab, selection_toDriver]

/-- An open file as the driver of a queue: the `used_bytes` that `read` delivers. -/
def Driver.answers (d : Driver) : ReadFn := fun capacity m t bbox =>
  (d.read capacity m t bbox).map fun part => part.1.take part.2

/-- An answer to what `sync_fetch` asks is the elements of the variable that are selected. -/
theorem answers_elements {d : Driver} {name : List UInt8} {v : NcVar} {info : VariableInfo}
    {m : VarMeta} {t : Int} {bbox : Option Bbox} {capacity : Nat} {payload : List UInt8}
    (hmachine : IsMachine info) (hv : d.file.vars name = some v) (htyped : d.file.Typed v)
    (hinfo : d.describeVariable name = some info) (hok : validateBbox bbox info.shape = .ok)
    (hbox : ∀ b ∈ bbox, ¬ b.Wraps info.shape) (ht : 0 ≤ t ∧ t < info.totalTimesteps)
    (hname : m.name = name) (hshape : m.shape = info.shape) (hdtype : m.dtype = info.dtype)
    (hbytes : (selection info.shape bbox).2.1.prod * elementSize info.dtype < 2 ^ 64)
    (hanswer : d.answers capacity m t (bbox.map Bbox.toDriver) = some payload) :
    Elements info bbox (fun is => v.content (leading (d.file.dropsLeading v) t.toNat ++ is))
      payload := by
  obtain ⟨⟨bytes, used⟩, hread, htake⟩ := Option.map_eq_some_iff.mp hanswer
  rw [read_toDriver] at hread
  obtain ⟨helements, hused⟩ :=
    read_elements hmachine hv htyped hinfo hok hbox ht hname hshape hdtype hread
  -- `used_bytes` is all that was delivered
  have hall : bytes.take used = bytes := by
    refine List.take_of_length_le ?_
    rw [hused, u64, Nat.mod_eq_of_lt (helements.length ▸ hbytes)]
  rw [hall] at htake
  subst htake
  exact helements

end NetCdf

namespace PrefetchRun

open NetCdf RowMajor

variable {s : PrefetchRun} {d : Driver} {v : NcVar} {c : Nat} {out : Option Nat}

/-- The call is a `get_buffer` of a timestep that is described, with a box that is accepted and does
not wrap around. -/
structure Asked (info : VariableInfo) (call : ReadCall) : Prop where
  kind : call.kind = .getBuffer
  timestep : 0 ≤ call.timestep ∧ call.timestep < info.totalTimesteps
  accepted : validateBbox call.bbox info.shape = .ok
  unwrapped : ∀ b ∈ call.bbox, ¬ b.Wraps info.shape

/-- **The buffer holds what is in the file.** The queue is that of a variable of the open file, and
no wait times out on a buffer of another selection. Then `get_buffer` returns `AMIO_OK` only with a
buffer that holds, until it is released, the elements that were asked for. -/
theorem reads_the_file
    (h : system.Reach (fun s op => s.timeoutMatches op = true ∧ s.AnsweredBy d.answers op) s)
    (hmachine : IsMachine s.stage.queue.info) (hv : d.file.vars s.stage.queue.varName = some v)
    (htyped : d.file.Typed v)
    (hinfo : d.describeVariable s.stage.queue.varName = some s.stage.queue.info)
    (hasked : Asked s.stage.queue.info (s.calls c))
    (hbytes : (selection s.stage.queue.info.shape (s.calls c).bbox).2.1.prod *
      elementSize s.stage.queue.info.dtype < 2 ^ 64)
    (hpc : (s.calls c).pc = .returned .ok out) (hheld : (s.calls c).released = false) :
    ∃ i, out = some i ∧ s.stage.owner i = some (.caller c) ∧
      Elements s.stage.queue.info (s.calls c).bbox
        (fun is => v.content
          (leading (d.file.dropsLeading v) (s.calls c).timestep.toNat ++ is))
        (s.stage.pool.payload i) := by
  obtain ⟨i, capacity, hi, howner, hanswer⟩ := holds_answer h hpc hasked.kind hheld
  exact ⟨i, hi, howner, answers_elements hmachine hv htyped hinfo hasked.accepted
    hasked.unwrapped hasked.timestep rfl rfl rfl hbytes hanswer⟩

/-- Every second byte of the second record is read, and a worker fetches it. -/
def boxedReadOps : List ReadOp :=
  [.begin .getBuffer 1 (some everySecond), .call 0, .call 0, .submit 0 false] ++
    fetchOps 0 [10, 12] ++ [.call 0]

theorem reads_the_file_of_bytes :
    ∃ info s i, (Driver.mk true false (fun _ => none) byteFile).describeVariable (text "T") =
        some info ∧
      system.replay (fun s op => s.timeoutMatches op = true ∧
          s.AnsweredBy (Driver.mk true false (fun _ => none) byteFile).answers op)
        (start 1 1 (text "T") info PoolRun.pairArgs) boxedReadOps = some s ∧
      (s.calls 0).pc = .returned .ok (some i) ∧
      element 1 (s.stage.pool.payload i) 0 = [10] ∧
      element 1 (s.stage.pool.payload i) 1 = [12] := by
  obtain ⟨info, hinfo, hmachine, hok, htotal, hsize, hsel, hcall, hqueue⟩ : ∃ info,
      (Driver.mk true false (fun _ => none) byteFile).describeVariable (text "T") = some info ∧
      IsMachine info ∧ validateBbox (some everySecond) info.shape = .ok ∧
      info.totalTimesteps = 2 ∧ elementSize info.dtype = 1 ∧
      (selection info.shape (some everySecond)).2.1 = [2] ∧
      ((system.replay (fun s op => s.timeoutMatches op = true ∧
          s.AnsweredBy (Driver.mk true false (fun _ => none) byteFile).answers op)
        (start 1 1 (text "T") info PoolRun.pairArgs) boxedReadOps).map fun s => s.calls 0) =
          some ⟨.getBuffer, 1, some everySecond, .returned .ok (some 0), false⟩ ∧
      ((system.replay (fun s op => s.timeoutMatches op = true ∧
          s.AnsweredBy (Driver.mk true false (fun _ => none) byteFile).answers op)
        (start 1 1 (text "T") info PoolRun.pairArgs) boxedReadOps).map fun s =>
          (s.stage.queue.varName, s.stage.queue.info)) = some (text "T", info) :=
    ⟨_, rfl, ⟨fun d => by revert d; decide +kernel, by decide⟩, by decide +kernel, rfl, rfl, rfl,
      by decide +kernel, by decide +kernel⟩
  obtain ⟨s, hs, hcall⟩ := Option.map_eq_some_iff.mp hcall
  rw [hs, Option.map_some, Option.some.injEq, Prod.mk.injEq] at hqueue
  obtain ⟨hname, hqinfo⟩ := hqueue
  have hwraps : ∀ b ∈ some everySecond, ¬ b.Wraps info.shape := by
    rintro _ ⟨⟩ ⟨-, -, k, -, hlast⟩
    exact absurd hlast (by simp [Bbox.last, everySecond])
  have hasked : Asked s.stage.queue.info (s.calls 0) := by
    rw [hcall, hqinfo]
    exact ⟨rfl, by rw [htotal]; decide, hok, hwraps⟩
  obtain ⟨i, hi, -, hall⟩ := reads_the_file
    (.of_replay boxedReadOps (.init ⟨_, _, _, _, _, rfl⟩) hs) (by rw [hqinfo]; exact hmachine)
    (by rw [hname]; rfl) (fun _ _ => rfl) (by rw [hname, hqinfo]; exact hinfo) hasked
    (by rw [hcall, hqinfo, hsel, hsize]; decide) (by rw [hcall]) (by rw [hcall])
  have hslice := hall.element
  simp only [hcall, hqinfo, hsel, hsize] at hslice
  exact ⟨info, s, i, hinfo, hs, by rw [hcall, hi], hslice [0] (by decide), hslice [1] (by decide)⟩

end PrefetchRun

end Amio
