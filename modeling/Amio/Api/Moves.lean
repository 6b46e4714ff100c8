import Amio.Api.Turns
import Amio.Boundary.HandleSlots

/-!
# What a step does to the records

A step of the process mints or releases at most one handle, and changes at most one record together
with it. `step_moves` says which: most steps are `Quiet`, and the others are the eight ways in which
a handle begins or ends. The invariants of the modules that follow are read off these cases.
-/

namespace Amio

/-- What the handle table and the views need to know of a core. -/
def CoreRecord.face (x : CoreRecord) : Token × Nat × Nat × Bool :=
  (x.token, x.ndatasets, x.nviews, x.deleted)

/-- What the handle table and the views need to know of a dataset. -/
def OpenRecord.face (x : OpenRecord) : Mode × Token × Nat × Bool :=
  (x.mode, x.token, x.outstandingViews, x.closed)

/-- The core that the call in progress works on. A `wait` only looks at its record. -/
def ApiCall.home : ApiCall → Option Nat
  | .idle | .waiting _ _ => none
  | .writing k _ | .reading k _ _ _ | .advancing k _ _ | .flushing k _ | .cancelling k _ _
  | .draining k _ | .surfacing k _ | .closing k _ _ | .flushed k _ _ | .stopping k
  | .tearing k _ => some k

/-- The call has minted its Io handle. -/
def HostPc.hasMinted : HostPc → Bool
  | .inserted => true
  | pc => pc.past

namespace Process

variable {s s' : Process} {k d q c v : Nat}

/-- Some slot is bound to `x`. -/
def Holds (s : Process) (x : Payload) : Prop := ∃ i, s.handles.table.Shows i x.kind x

/-- Write `c` of core `k` has its Io handle. -/
def Minted (s : Process) (k c : Nat) : Prop :=
  c < (s.io k).writes.ncalls ∧ ((s.io k).writes.calls c).host.hasMinted = true

/-- No handle begins or ends. -/
structure Quiet (s s' : Process) : Prop where
  handles : s'.handles = s.handles
  ncores : s'.ncores = s.ncores
  cores : ∀ k, (s'.cores k).face = (s.cores k).face
  datasets : ∀ k d, (s'.datasets k d).face = (s.datasets k d).face
  views : s'.views = s.views

theorem Quiet.refl (s : Process) : Quiet s s := ⟨rfl, rfl, fun _ => rfl, fun _ _ => rfl, rfl⟩

theorem Quiet.trans {s'' : Process} (h : Quiet s s') (h' : Quiet s' s'') : Quiet s s'' where
  handles := h'.handles.trans h.handles
  ncores := h'.ncores.trans h.ncores
  cores k := (h'.cores k).trans (h.cores k)
  datasets k d := (h'.datasets k d).trans (h.datasets k d)
  views := h'.views.trans h.views

/-- Where the host is does not matter. -/
theorem Quiet.at (h : Quiet s s') (call : ApiCall) (last : AmioErr)
    (observed : Nat → Nat → Bool) :
    Quiet s { s' with call := call, last := last, observed := observed } :=
  ⟨h.handles, h.ncores, h.cores, h.datasets, h.views⟩

/-- The call that begins, if it is a `read`, is one that the queue has just been given. -/
structure Begun (s s' : Process) (d : Nat) : Prop where
  reading : ∀ k e q c, s'.call = .reading k e q c → e = d ∧ c = ((s.io k).queues q).ncalls ∧
    c < ((s'.io k).queues q).ncalls ∧ (((s'.io k).queues q).calls c).released = false
  closing : ∀ k e r, s'.call ≠ .closing k e r
  flushed : ∀ k e r, s'.call ≠ .flushed k e r

/-- A call that goes on carries on with the status that it has. -/
structure Onward (s s' : Process) : Prop where
  reading : ∀ k e q c, s'.call ≠ .reading k e q c
  closing : ∀ k e r, s'.call = .closing k e r → r = ((s.io k).writes.datasets e).verdict
  flushed : ∀ k e r, s'.call = .flushed k e r →
    ∃ r₀ ok, s.call = .closing k e r₀ ∧ r = r₀.caught ok

/-- How the host gets from one call to the next, when no handle begins or ends. -/
inductive Goes (s : Process) (op : ApiOp) (s' : Process) : Prop
  | stays (after : s'.call = s.call)
  | returns (after : s'.call = .idle)
  | waits (k c : Nat) (after : s'.call = .waiting k c)
  | onward (k : Nat) (before : s.call.home = some k) (usual : s.call.isFinal = false)
      (after : s'.call.home = some k) (usual' : s'.call.isFinal = false) (on : Onward s s')
  | begins (k d : Nat) (before : s.call = .idle) (live : s.Holds (.dataset k d))
      (after : s'.call.home = some k) (usual' : s'.call.isFinal = false) (begun : Begun s s' d)
  | stops (k : Nat) (token : Token) (before : s.call = .idle) (isFinalize : op = .finalize token)
      (found : s.handles.table.lookup token .core = (.ok, some (.core k)))
      (after : s'.call = .stopping k)
  | joins (k : Nat) (before : s.call = .stopping k)
      (after : s'.call = .tearing k (List.range (s.cores k).ndatasets))

/-- What a step does to handles and records. -/
inductive Move (s : Process) (op : ApiOp) (s' : Process) : Prop
  | quiet (same : Quiet s s') (goes : Goes s op s')
  | core (before : s.call = .idle)
      (handles : s'.handles = s.handles.insert .core (.core s.ncores))
      (ncores : s'.ncores = s.ncores + 1)
      (cores : s'.cores = Function.update s.cores s.ncores
        { token := s.handles.fresh .core (.core s.ncores) })
      (datasets : s'.datasets = s.datasets) (views : s'.views = s.views)
      (after : s'.call = .idle)
  | dataset (k : Nat) (mode : Mode) (before : s.call = .idle) (live : s.Holds (.core k))
      (handles : s'.handles = s.handles.insert .dataset (.dataset k (s.cores k).ndatasets))
      (ncores : s'.ncores = s.ncores)
      (cores : s'.cores = Function.update s.cores k
        { s.cores k with ndatasets := (s.cores k).ndatasets + 1 })
      (datasets : s'.datasets = Function.update s.datasets k (Function.update (s.datasets k)
        (s.cores k).ndatasets
        { mode := mode
          token := s.handles.fresh .dataset (.dataset k (s.cores k).ndatasets)
          received := [mode.opening] }))
      (views : s'.views = s.views) (after : s'.call = .idle)
  | io (k c : Nat) (before : s.call = .writing k c)
      (pc : ((s.io k).writes.calls c).host = .copied)
      (handles : s'.handles = s.handles.insert .io (.io k c))
      (ncores : s'.ncores = s.ncores) (cores : s'.cores = s.cores)
      (datasets : s'.datasets = s.datasets) (views : s'.views = s.views)
      (after : s'.call = s.call)
      (minted : s'.Minted k c)
  | view (k d q c b c' : Nat) (before : s.call = .reading k d q c)
      (pc : (((s.io k).queues q).calls c).pc = .returned .ok (some b))
      (handles : s'.handles = s.handles.insert .view (.view k (s.cores k).nviews))
      (ncores : s'.ncores = s.ncores)
      (cores : s'.cores = Function.update s.cores k
        { s.cores k with nviews := (s.cores k).nviews + 1 })
      (datasets : s'.datasets = Function.update s.datasets k (Function.update (s.datasets k) d
        { s.datasets k d with outstandingViews := u64 ((s.datasets k d).outstandingViews + 1) }))
      (views : s'.views = Function.update s.views k (Function.update (s.views k)
        (s.cores k).nviews
        { dataset := d, queue := q, call := c
          token := s.handles.fresh .view (.view k (s.cores k).nviews) }))
      (after : s'.call = .advancing k q c') (isMint : op = .mint)
  | unview (k v : Nat) (token : Token) (before : s.call = .idle)
      (found : s.handles.table.lookup token .view = (.ok, some (.view k v)))
      (alive : (s.cores k).deleted = false)
      (handles : s'.handles = s.handles.release (s.views k v).token .view)
      (ncores : s'.ncores = s.ncores) (cores : s'.cores = s.cores)
      (datasets : s'.datasets = Function.update s.datasets k (Function.update (s.datasets k)
        (s.views k v).dataset
        { s.datasets k (s.views k v).dataset with
          outstandingViews :=
            u64 ((s.datasets k (s.views k v).dataset).outstandingViews + (2 ^ 64 - 1)) }))
      (views : s'.views = Function.update s.views k (Function.update (s.views k) v
        { s.views k v with freed := true }))
      (after : s'.call = .idle)
      (queue : (s.ioOf k).step (.read (s.views k v).queue (.release (s.views k v).call)) =
        some (s'.io k))
      (isRelease : op = .releaseView token)
  | close (k d : Nat) (result : AmioErr) (before : s.call = .flushed k d result)
      (handles : s'.handles = s.handles.release (s.datasets k d).token .dataset)
      (ncores : s'.ncores = s.ncores) (cores : s'.cores = s.cores)
      (others : ∀ j e, (j, e) ≠ (k, d) → (s'.datasets j e).face = (s.datasets j e).face)
      (self : (s'.datasets k d).face = { s.datasets k d with closed := true }.face)
      (views : s'.views = s.views) (after : s'.call = .idle)
  | tear (k d : Nat) (rest : List Nat) (before : s.call = .tearing k rest) (mem : d ∈ rest)
      (handles : s'.handles = if (s.datasets k d).token = 0 then s.handles
        else s.handles.release (s.datasets k d).token .dataset)
      (ncores : s'.ncores = s.ncores) (cores : s'.cores = s.cores)
      (datasets : ∀ j e, (s'.datasets j e).face = (s.datasets j e).face)
      (views : s'.views = s.views) (after : s'.call = .tearing k (rest.erase d))
  | destroy (k : Nat) (before : s.call = .tearing k [])
      (handles : s'.handles = s.handles.release (s.cores k).token .core)
      (ncores : s'.ncores = s.ncores)
      (cores : s'.cores = Function.update s.cores k { s.cores k with deleted := true })
      (datasets : s'.datasets = s.datasets) (views : s'.views = s.views)
      (after : s'.call = .idle)

/-- A step makes one call on the handle table, or none. -/
theorem Move.handles {op : ApiOp} (h : Move s op s') :
    s'.handles = s.handles ∨ (∃ kind x, s'.handles = s.handles.insert kind x) ∨
      ∃ token kind, s'.handles = s.handles.release token kind := by
  cases h with
  | quiet same => exact .inl same.handles
  | core _ handles => exact .inr (.inl ⟨_, _, handles⟩)
  | dataset _ _ _ _ handles => exact .inr (.inl ⟨_, _, handles⟩)
  | io _ _ _ _ handles => exact .inr (.inl ⟨_, _, handles⟩)
  | view _ _ _ _ _ _ _ _ handles => exact .inr (.inl ⟨_, _, handles⟩)
  | unview _ _ _ _ _ _ handles => exact .inr (.inr ⟨_, _, handles⟩)
  | close _ _ _ _ handles => exact .inr (.inr ⟨_, _, handles⟩)
  | tear _ _ _ _ _ handles =>
    -- the teardown releases a token that was given out
    split at handles
    · exact .inl handles
    · exact .inr (.inr ⟨_, _, handles⟩)
  | destroy _ _ handles => exact .inr (.inr ⟨_, _, handles⟩)

/-! ### Steps inside a core -/

/-- What a step inside core `k` leaves alone. -/
structure Ran (s : Process) (k : Nat) (op : IoOp) (s' : Process) : Prop where
  step : (s.ioOf k).step op = some (s'.io k)
  elsewhere : ∀ j, j ≠ k → s'.io j = s.io j
  handles : s'.handles = s.handlesAfter k op
  ncores : s'.ncores = s.ncores
  cores : s'.cores = s.cores
  datasets : ∀ j e, (s'.datasets j e).face = (s.datasets j e).face
  undriven : s.driverCall k op = none → s'.datasets = s.datasets
  views : s'.views = s.views
  observed : s'.observed = s.observed
  call : s'.call = s.call
  last : s'.last = s.last

/-- What the new record of a core has in common with the old one, every core keeps. -/
theorem setCore_keeps {α : Type} {x : CoreRecord} (g : CoreRecord → α)
    (h : g x = g (s.cores k)) (j : Nat) : g ((s.setCore k x).cores j) = g (s.cores j) :=
  Lts.apply_update_eq g h j

/-- The record of one dataset is set, and no other. -/
theorem setDataset_cases (s : Process) (k d : Nat) (x : OpenRecord) (j e : Nat) :
    (j = k ∧ e = d ∧ (s.setDataset k d x).datasets j e = x) ∨
      (¬ (j = k ∧ e = d) ∧ (s.setDataset k d x).datasets j e = s.datasets j e) := by
  unfold setDataset
  by_cases hj : j = k
  · subst hj
    by_cases he : e = d
    · subst he
      exact .inl ⟨rfl, rfl, by simp⟩
    · exact .inr ⟨fun h => he h.2, by simp [he]⟩
  · exact .inr ⟨fun h => hj h.1, by simp [hj]⟩

/-- What is counted in the cores when a dataset is opened. -/
theorem openDataset_counts (s : Process) (k : Nat) (mode : Mode) (j : Nat) :
    ((s.openDataset k mode none).cores j).ndatasets =
        (s.cores j).ndatasets + (if j = k then 1 else 0) ∧
      ((s.openDataset k mode none).cores j).nqueues = (s.cores j).nqueues := by
  by_cases hj : j = k
  · subst hj
    simp [openDataset, ret, setCore, setDataset]
  · simp [openDataset, ret, setCore, setDataset, hj]

/-- The record of the dataset that is opened, and those that were there. -/
theorem openDataset_cases (s : Process) (k : Nat) (mode : Mode) (j e : Nat) :
    (j = k ∧ e = (s.cores k).ndatasets ∧ (s.openDataset k mode none).datasets j e =
        { mode := mode
          token := s.handles.fresh .dataset (.dataset k (s.cores k).ndatasets)
          received := [mode.opening] }) ∨
      (¬ (j = k ∧ e = (s.cores k).ndatasets) ∧
        (s.openDataset k mode none).datasets j e = s.datasets j e) :=
  setDataset_cases s k (s.cores k).ndatasets _ j e

/-- A field that is set to what it was is kept everywhere. -/
theorem setDataset_keeps {α : Type} {x : OpenRecord} (g : OpenRecord → α)
    (h : g x = g (s.datasets k d)) (j e : Nat) :
    g ((s.setDataset k d x).datasets j e) = g (s.datasets j e) :=
  Lts.apply_update_update_eq g h j e

/-- What a driver receives is not seen in the record's face. -/
theorem receive_face (s : Process) (k d : Nat) (calls : List DriverCall) (j e : Nat) :
    ((s.receive k d calls).datasets j e).face = (s.datasets j e).face :=
  setDataset_keeps OpenRecord.face (by rfl) j e

/-- What a step inside a core does to the process. -/
theorem ioStep_ran {op : IoOp} (h : s.ioStep k op = some s') : Ran s k op s' := by
  unfold ioStep at h
  obtain ⟨io, hio, rfl⟩ := Option.map_eq_some_iff.mp h
  have hstep : (s.ioOf k).step op = some (Function.update s.io k io k) := by
    rw [Function.update_self]
    exact hio
  have helse : ∀ j, j ≠ k → Function.update s.io k io j = s.io j :=
    fun j hj => Function.update_of_ne hj _ _
  cases hcall : s.driverCall k op with
  | none =>
    exact ⟨hstep, helse, rfl, rfl, rfl, fun _ _ => rfl, fun _ => rfl, rfl, rfl, rfl, rfl⟩
  | some dc =>
    refine ⟨hstep, helse, rfl, rfl, rfl, receive_face _ _ _ _, fun hnone => ?_, rfl, rfl, rfl, rfl⟩
    cases hcall.symm.trans hnone

/-- Only the step that mints an Io handle touches the table. -/
theorem Ran.quiet {op : IoOp} (h : Ran s k op s') (hop : ∀ c, op ≠ .write (.host c .insert)) :
    Quiet s s' := by
  refine ⟨h.handles.trans ?_, h.ncores, fun j => by rw [h.cores], h.datasets, h.views⟩
  unfold handlesAfter
  split
  · next c => exact absurd rfl (hop c)
  · rfl

/-- The step that mints an Io handle. -/
theorem ioOf_insert {io : IoRun} (h : (s.ioOf k).step (.write (.host c .insert)) = some io) :
    ((s.io k).writes.calls c).host = .copied ∧ c < io.writes.ncalls ∧
      (io.writes.calls c).host.hasMinted = true := by
  obtain ⟨w, hw, rfl⟩ := Option.map_eq_some_iff.mp h
  simp only [WriteRun.step, Option.ite_none_right_eq_some] at hw
  obtain ⟨hc, hw⟩ := hw
  have hpc : (((s.ioOf k).asWrite).calls c).host = .copied := by
    cases hpc : (((s.ioOf k).asWrite).calls c).host with
    | copied => rfl
    | _ => simp [WriteRun.hostStep, hpc] at hw
  simp only [WriteRun.hostStep, hpc] at hw
  obtain rfl := Option.some.inj hw
  refine ⟨hpc, hc, ?_⟩
  simp [WriteRun.setCall, HostPc.hasMinted]

/-- The step that makes a call on a queue. -/
theorem ioOf_begin {io : IoRun} {kind : ReadKind} {t : Int} {bbox : Option Bbox}
    (h : (s.ioOf k).step (.read q (.begin kind t bbox)) = some io) :
    (io.queues q).ncalls = ((s.io k).queues q).ncalls + 1 ∧
      ((io.queues q).calls ((s.io k).queues q).ncalls).released = false := by
  obtain ⟨r, hr, rfl⟩ := Option.map_eq_some_iff.mp (IoRun.step_read h).1
  obtain rfl := Option.some.inj hr
  simp [PrefetchRun.beginCall, IoRun.asQueue, IoRun.shareQueue, ioOf]

/-- A step inside a core is quiet, or it mints the Io handle of a write. -/
theorem Ran.move {op : IoOp} (h : Ran s k op s') (hcall : ∀ c, op = .write (.host c .insert) →
    s.call = .writing k c) : Move s (.run k op) s' := by
  by_cases hop : ∃ c, op = .write (.host c .insert)
  · obtain ⟨c, rfl⟩ := hop
    obtain ⟨hpc, hminted⟩ := ioOf_insert h.step
    exact .io k c (hcall c rfl) hpc h.handles h.ncores h.cores (h.undriven rfl) h.views h.call
      hminted
  · exact .quiet (h.quiet fun c hc => hop ⟨c, hc⟩) (.stays h.call)

/-! ### The calls -/

/-- A lookup that succeeds has found a live handle. -/
theorem Holds.of_lookup {token : Token} {x : Payload}
    (h : s.handles.table.lookup token x.kind = (.ok, some x)) : s.Holds x :=
  ⟨_, (HandleTable.lookup_shows h).1⟩

theorem ret_move (s : Process) (op : ApiOp) (status : AmioErr) : Move s op (s.ret status) :=
  .quiet ⟨rfl, rfl, fun _ => rfl, fun _ _ => rfl, rfl⟩ (.returns rfl)

/-- `resolve_variable` only adds to what is known of the dataset's variables. -/
theorem resolveVariable_quiet {name : List UInt8} {found : Bool} {res : Option Nat}
    (h : s.resolveVariable k d name found = some (res, s')) :
    Quiet s s' ∧ s'.io = s.io ∧ s'.observed = s.observed := by
  unfold resolveVariable at h
  split at h
  -- the variable is known, or it is described and gets a queue
  · obtain ⟨-, rfl⟩ := Prod.mk.inj (Option.some.inj h)
    exact ⟨.refl s, rfl, rfl⟩
  · simp only at h
    split at h
    · split at h
      · obtain ⟨-, rfl⟩ := Prod.mk.inj (Option.some.inj h)
        refine ⟨⟨rfl, rfl, fun j => ?_, fun j e => ?_, rfl⟩, rfl, rfl⟩
        · exact setCore_keeps CoreRecord.face (by rfl) j
        · exact (setDataset_keeps OpenRecord.face (by rfl) j e).trans
            (receive_face s k d [.describe] j e)
      · cases h
    · obtain ⟨-, rfl⟩ := Prod.mk.inj (Option.some.inj h)
      exact ⟨⟨rfl, rfl, fun _ => rfl, receive_face _ _ _ _, rfl⟩, rfl, rfl⟩

/-- A quiet call on a dataset. -/
theorem Quiet.begins {op : ApiOp} (hidle : s.call = .idle) (hlive : s.Holds (.dataset k d))
    (h : Quiet s s')
    (hbegun : s'.call.home = some k ∧ s'.call.isFinal = false ∧ Begun s s' d) : Move s op s' :=
  .quiet h (.begins k d hidle hlive hbegun.1 hbegun.2.1 hbegun.2.2)

/-- A quiet step of a call other than `finalize`. -/
theorem Quiet.onward {op : ApiOp} {call : ApiCall} (hcall : s.call = call)
    (hbefore : call.home = some k ∧ call.isFinal = false) (h : Quiet s s')
    (hafter : s'.call.home = some k ∧ s'.call.isFinal = false) (hon : Onward s s') :
    Move s op s' := by
  subst hcall
  exact .quiet h (.onward k hbefore.1 hbefore.2 hafter.1 hafter.2 hon)

/-- The end of a close. -/
theorem closeDriver_move {op : ApiOp} {before result : AmioErr}
    (hcall : s.call = .flushed k d before) : Move s op (s.closeDriver k d result) := by
  refine .close k d before hcall rfl rfl rfl (fun j e hne => ?_) ?_ rfl rfl
  · refine congrArg OpenRecord.face (Lts.update_update_of_ne ?_)
    rintro ⟨rfl, rfl⟩
    exact hne rfl
  · simp [closeDriver, setDataset, ret, OpenRecord.face]

/-- The call of `get_buffer` that a `read` begins. -/
theorem Ran.begun {s₁ : Process} {t : Int} {bbox : Option Bbox} (hio : s₁.io = s.io)
    (h : Ran s₁ k (.read q (.begin .getBuffer t bbox)) s') :
    Begun s { s' with call := .reading k d q ((s₁.io k).queues q).ncalls } d := by
  refine ⟨?_, by simp, by simp⟩
  rintro j e q' c hcall
  obtain ⟨rfl, rfl, rfl, rfl⟩ := ApiCall.reading.inj hcall
  obtain ⟨hncalls, hreleased⟩ := ioOf_begin h.step
  exact ⟨rfl, by rw [hio], by rw [hncalls]; exact Nat.lt_succ_self _, hreleased⟩

/-- Every turn is a move. -/
theorem Turn.moves {op : ApiOp} (h : Turn s op s') : Move s op s' := by
  cases h with
  | runs lt permitted ran =>
    refine (ioStep_ran ran).move ?_
    rintro c rfl
    simpa [Process.permitted] using permitted
  | returns status => exact ret_move s _ status
  | observes => exact .quiet ⟨rfl, rfl, fun _ => rfl, fun _ _ => rfl, rfl⟩ (.returns rfl)
  -- a new core or dataset comes with its handle
  | inits idle => exact .core idle rfl rfl rfl rfl rfl rfl
  | opens idle found => exact .dataset _ _ idle (.of_lookup found) rfl rfl rfl rfl rfl rfl
  | writes idle found ran =>
    exact Quiet.begins idle (.of_lookup found) (((ioStep_ran ran).quiet (by simp)).at _ _ _)
      ⟨rfl, rfl, by simp, by simp, by simp⟩
  | resolves status idle found mode resolved =>
    exact .quiet ((resolveVariable_quiet resolved).1.at _ _ _) (.returns rfl)
  | reads idle found mode resolved ran =>
    obtain ⟨hquiet, hio, -⟩ := resolveVariable_quiet resolved
    have hran := ioStep_ran ran
    exact Quiet.begins idle (.of_lookup found) ((hquiet.trans (hran.quiet (by simp))).at _ _ _)
      ⟨rfl, rfl, hran.begun hio⟩
  | mints before pc ran =>
    have hran := ioStep_ran ran
    exact .view _ _ _ _ _ _ before pc hran.handles hran.ncores hran.cores (hran.undriven rfl)
      hran.views rfl rfl
  | waits => exact .quiet ((Quiet.refl s).at _ _ _) (.waits _ _ rfl)
  | flushes idle found ran =>
    exact Quiet.begins idle (.of_lookup found) (((ioStep_ran ran).quiet (by simp)).at _ _ _)
      ⟨rfl, rfl, by simp, by simp, by simp⟩
  | releases idle found alive ran =>
    have hran := ioStep_ran ran
    have hdatasets := hran.undriven rfl
    refine .unview _ _ _ idle found alive rfl hran.ncores hran.cores ?_ ?_ rfl hran.step rfl
    · simp only [setDataset, setView, ret, hdatasets]
    · simp only [setDataset, setView, ret, hran.views]
  | closes idle found =>
    exact Quiet.begins idle (.of_lookup found) ((Quiet.refl s).at _ _ _)
      ⟨rfl, rfl, by simp, by simp, by simp⟩
  | cancels before mem ran =>
    exact Quiet.onward before ⟨rfl, rfl⟩ (((ioStep_ran ran).quiet (by simp)).at _ _ _) ⟨rfl, rfl⟩
      ⟨by simp, by simp, by simp⟩
  | drains before =>
    exact Quiet.onward before ⟨rfl, rfl⟩ ((Quiet.refl s).at _ _ _) ⟨rfl, rfl⟩
      ⟨by simp, by simp, by simp⟩
  | drained before =>
    exact Quiet.onward before ⟨rfl, rfl⟩ ((Quiet.refl s).at _ _ _) ⟨rfl, rfl⟩
      ⟨by simp, by simp, by simp⟩
  | surfaces before =>
    refine Quiet.onward before ⟨rfl, rfl⟩ ((Quiet.refl s).at _ _ _) ⟨rfl, rfl⟩
      ⟨by simp, ?_, by simp⟩
    intro j e r heq
    obtain ⟨rfl, rfl, rfl⟩ := ApiCall.closing.inj heq
    rfl
  | flushesDriver before =>
    refine Quiet.onward before ⟨rfl, rfl⟩ ⟨rfl, rfl, fun _ => rfl, receive_face _ _ _ _, rfl⟩
      ⟨rfl, rfl⟩ ⟨by simp, by simp, ?_⟩
    intro j e r heq
    obtain ⟨rfl, rfl, rfl⟩ := ApiCall.flushed.inj heq
    exact ⟨_, _, before, rfl⟩
  | closesDriver before => exact closeDriver_move before
  | finalizes idle found =>
    exact .quiet ((Quiet.refl s).at _ _ _) (.stops _ _ idle rfl found rfl)
  -- the teardown: threads, then every dataset, then the core
  | @joins k before =>
    refine .quiet ⟨rfl, rfl, fun j => ?_, fun _ _ => rfl, rfl⟩ (.joins k before rfl)
    exact setCore_keeps CoreRecord.face (by rfl) j
  | tears before mem => exact .tear _ _ _ before mem rfl rfl rfl (receive_face _ _ _ _) rfl rfl
  | destroys before => exact .destroy _ before rfl rfl rfl rfl rfl rfl

/-- **What a step does.** -/
theorem step_moves {op : ApiOp} (h : s.step op = some s') : Move s op s' := (step_turns h).moves

/-! ### The writes of a core -/

/-- A write that has its Io handle keeps it. -/
theorem hasMinted_of_step {w w' : WriteRun} {op : WriteOp} (h : WriteRun.Step w op w')
    (hc : c < w.ncalls) (hminted : (w.calls c).host.hasMinted = true) :
    c < w'.ncalls ∧ (w'.calls c).host.hasMinted = true := by
  have hset : ∀ {e : Nat} {x : WriteCall},
      ((w.calls e).host.hasMinted = true → x.host.hasMinted = true) →
      (Function.update w.calls e x c).host.hasMinted = true := by
    intro e x hx
    by_cases hce : c = e
    · subst hce
      rw [Function.update_self]
      exact hx hminted
    · rw [Function.update_of_ne hce]
      exact hminted
  cases h with
  | call args =>
    refine ⟨Nat.lt_succ_of_lt hc, ?_⟩
    show (Function.update w.calls w.ncalls _ c).host.hasMinted = true
    rw [Function.update_of_ne (Nat.ne_of_lt hc)]
    exact hminted
  -- before it has its handle, the call is still acquiring or copying
  | got _ pc acq =>
    exact ⟨hc, hset fun h => by rcases pc with pc | pc <;> rw [pc] at h <;> cases h⟩
  | denied _ pc next acq =>
    exact ⟨hc, hset fun h => by rcases pc with pc | pc <;> rw [pc] at h <;> cases h⟩
  | copied bytes _ pc => exact ⟨hc, hset fun h => by rw [pc] at h; cases h⟩
  | inserted | entered | submitted | counted | returned => exact ⟨hc, hset fun _ => rfl⟩
  -- the worker writes to the Io record, not to the host's position
  | began | answered | completed | failed | coded | marked | firstCode | gaveBack | subtracted
  | locked => exact ⟨hc, hset id⟩
  | sectioned | advanced | otherGot | otherDenied | otherRelease | otherFill | otherHandles
  | flushBegan | flushRead | flushTimeout | flushFinish => exact ⟨hc, hminted⟩

/-- A step inside a core is a step of its write path, or none. -/
theorem step_writes {r r' : IoRun} {op : IoOp} (h : r.step op = some r') :
    r'.writes = r.writes ∨ ∃ wop, WriteRun.Step r.asWrite wop r'.writes ∧
      ∀ args, wop = .call args → ∃ region, op = .call args region := by
  have hwrite : ∀ {wop : WriteOp} {r' : IoRun}, r.writeStep wop = some r' →
      WriteRun.Step r.asWrite wop r'.writes := by
    intro wop r' hr'
    obtain ⟨w, hw, rfl⟩ := Option.map_eq_some_iff.mp hr'
    exact WriteRun.step_cases hw
  cases op with
  | call args region =>
    simp only [IoRun.step] at h
    obtain ⟨r₁, hr₁, rfl⟩ := Option.map_eq_some_iff.mp h
    have hstep := hwrite hr₁
    refine .inr ⟨_, hstep, fun args' heq => ⟨region, ?_⟩⟩
    rw [WriteOp.call.inj heq]
  | copy c => exact .inr ⟨_, hwrite h, by simp⟩
  | write wop =>
    obtain ⟨hstep, -, hcall, -⟩ := IoRun.step_write h
    exact .inr ⟨wop, hwrite hstep, fun args heq => absurd heq (hcall args)⟩
  -- a step of a queue takes the pool and leaves the writes
  | read q rop =>
    obtain ⟨hread, -⟩ := IoRun.step_read h
    obtain ⟨r, hr, rfl⟩ := Option.map_eq_some_iff.mp hread
    exact .inl rfl
  | mutate region bytes =>
    simp only [IoRun.step] at h
    split at h
    · cases h
    · obtain rfl := Option.some.inj h
      exact .inl rfl

/-! ### Which core moves -/

/-- The steps of a core that a step of the process makes. -/
inductive Cause (s : Process) : ApiOp → Nat → IoOp → Prop
  | run (k : Nat) (op : IoOp) (lt : k < s.ncores) (permitted : s.permitted k op = true) :
      Cause s (.run k op) k op
  | write (token : Token) (args : WriteArgs) (region k d : Nat) (idle : s.call = .idle)
      (found : s.handles.table.lookup token .dataset = (.ok, some (.dataset k d))) :
      Cause s (.write token args region) k (.call { args with dataset := d } region)
  | get {op : ApiOp} (k d q : Nat) (t : Int) (bbox : Option Bbox) (idle : s.call = .idle)
      (live : s.Holds (.dataset k d)) : Cause s op k (.read q (.begin .getBuffer t bbox))
  | next (k d q c b : Nat) (t : Int) (before : s.call = .reading k d q c)
      (pc : (((s.io k).queues q).calls c).pc = .returned .ok (some b)) :
      Cause s .mint k (.read q (.begin .scheduleNext t none))
  | flush (token : Token) (k d : Nat) (idle : s.call = .idle) :
      Cause s (.flush token) k (.write (.flush d))
  | release (token : Token) (k v : Nat) (idle : s.call = .idle) (live : s.Holds (.view k v)) :
      Cause s (.releaseView token) k (.read (s.views k v).queue (.release (s.views k v).call))
  | cancel (q k d : Nat) (rest : List Nat) (before : s.call = .cancelling k d rest)
      (mem : q ∈ rest) : Cause s (.cancel q) k (.read q .cancel)

/-- What a step does to the cores: nothing, or a step of one of them, which may see another handle
table than the one before. A `wait` may find its write completed. -/
inductive Inside (s : Process) (op : ApiOp) (s' : Process) : Prop
  | still (io : s'.io = s.io) (observed : s'.observed = s.observed)
  | observes (k c : Nat) (isProceed : op = .proceed) (before : s.call = .waiting k c)
      (completed : ((s.io k).writes.calls c).io.completed = true) (io : s'.io = s.io)
  | moves (k : Nat) (iop : IoOp) (t : HandleTable Nat)
      (step : IoRun.step { s.io k with writes := { (s.io k).writes with handles := t } } iop =
        some (s'.io k))
      (elsewhere : ∀ j, j ≠ k → s'.io j = s.io j) (cause : Cause s op k iop)
      (observed : s'.observed = s.observed)

/-- A step inside a core, whatever the process does around it. -/
theorem Ran.inside {op : ApiOp} {s₀ s₁ : Process} {iop : IoOp} (h : Ran s₀ k iop s₁)
    (hbefore : s₀.io = s.io ∧ s₀.observed = s.observed)
    (hafter : s'.io = s₁.io ∧ s'.observed = s₁.observed) (cause : Cause s op k iop) :
    Inside s op s' := by
  obtain ⟨hbefore, hobserved⟩ := hbefore
  obtain ⟨hafter, hobserved'⟩ := hafter
  refine .moves k iop (s₀.handles.table.map Payload.index) ?_ (fun j hj => ?_) cause
    (hobserved'.trans (h.observed.trans hobserved))
  · rw [hafter, ← hbefore]
    exact h.step
  · rw [hafter, ← hbefore]
    exact h.elsewhere j hj

/-- Looking a variable up moves no core. -/
theorem resolveVariable_io {name : List UInt8} {found : Bool} {res : Option Nat}
    (h : s.resolveVariable k d name found = some (res, s')) :
    s'.io = s.io ∧ s'.observed = s.observed :=
  (resolveVariable_quiet h).2

/-- What every turn does to the cores. -/
theorem Turn.insides {op : ApiOp} (h : Turn s op s') : Inside s op s' := by
  cases h with
  | runs lt permitted ran =>
    exact (ioStep_ran ran).inside ⟨rfl, rfl⟩ ⟨rfl, rfl⟩ (.run _ _ lt permitted)
  | observes before completed => exact .observes _ _ rfl before completed rfl
  | writes idle found ran =>
    exact (ioStep_ran ran).inside ⟨rfl, rfl⟩ ⟨rfl, rfl⟩
      (.write _ _ _ _ _ idle found)
  | resolves status idle found mode resolved =>
    obtain ⟨hio, hobserved⟩ := resolveVariable_io resolved
    exact .still hio hobserved
  | reads idle found mode resolved ran =>
    exact (ioStep_ran ran).inside (resolveVariable_io resolved) ⟨rfl, rfl⟩
      (.get _ _ _ _ _ idle (.of_lookup found))
  | mints before pc ran =>
    exact (ioStep_ran ran).inside ⟨rfl, rfl⟩ ⟨rfl, rfl⟩ (.next _ _ _ _ _ _ before pc)
  | flushes idle found ran =>
    exact (ioStep_ran ran).inside ⟨rfl, rfl⟩ ⟨rfl, rfl⟩ (.flush _ _ _ idle)
  | releases idle found alive ran =>
    exact (ioStep_ran ran).inside ⟨rfl, rfl⟩ ⟨rfl, rfl⟩
      (.release _ _ _ idle (.of_lookup found))
  | cancels before mem ran =>
    exact (ioStep_ran ran).inside ⟨rfl, rfl⟩ ⟨rfl, rfl⟩ (.cancel _ _ _ _ before mem)
  -- the rest happens outside the cores
  | returns | inits | opens | waits | closes | drains | drained | surfaces | flushesDriver
  | closesDriver | finalizes | joins | tears | destroys => exact .still rfl rfl

/-- **Which core a step moves.** -/
theorem step_inside {op : ApiOp} (h : s.step op = some s') : Inside s op s' :=
  (step_turns h).insides

/-- A write that has its Io handle keeps it. -/
theorem Inside.minted {op : ApiOp} {j : Nat} (h : Inside s op s') (hminted : s.Minted j c) :
    s'.Minted j c := by
  cases h with
  | still io | observes _ _ _ _ _ io =>
    unfold Minted
    rw [io]
    exact hminted
  | moves k iop t step elsewhere cause =>
    -- only a step of this core could touch the call
    by_cases hj : j = k
    · subst hj
      rcases step_writes step with hsame | ⟨wop, hstep, -⟩
      · unfold Minted
        rw [hsame]
        exact hminted
      · exact hasMinted_of_step hstep hminted.1 hminted.2
    · unfold Minted
      rw [elsewhere j hj]
      exact hminted

end Process

end Amio
