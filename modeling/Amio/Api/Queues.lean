import Amio.Api.Quiescence

/-!
# Datasets and their queues

What a step adds to the records (`Turn.gains`): most steps are `Plain`, and the others make a core,
a dataset, or a queue for a variable of a dataset. Every queue is known to the dataset that it was
made for, which was opened for reading (`Queued`), and nothing is called on a queue before it is
made (`Unused`).
-/

namespace Amio

/-- What the driver of a dataset knows of it. -/
def OpenRecord.life (x : OpenRecord) : Mode × Bool × List DriverCall :=
  (x.mode, x.closed, x.received)

namespace Process

variable {s s' : Process} {k d q c : Nat} {op : ApiOp}

/-! ### Datasets and their queues -/

/-- No dataset and no queue is made. -/
structure Plain (s s' : Process) : Prop where
  ncores : s'.ncores = s.ncores
  reads : s'.reads = s.reads
  cores : ∀ k, (s'.cores k).ndatasets = (s.cores k).ndatasets ∧
    (s'.cores k).nqueues = (s.cores k).nqueues
  datasets : ∀ k d, (s'.datasets k d).mode = (s.datasets k d).mode ∧
    (s'.datasets k d).variableStates = (s.datasets k d).variableStates

theorem Plain.refl (s : Process) : Plain s s where
  ncores := rfl
  reads := rfl
  cores _ := ⟨rfl, rfl⟩
  datasets _ _ := ⟨rfl, rfl⟩

theorem Plain.trans {s'' : Process} (h : Plain s s') (h' : Plain s' s'') : Plain s s'' where
  ncores := h'.ncores.trans h.ncores
  reads := h'.reads.trans h.reads
  cores k := ⟨(h'.cores k).1.trans (h.cores k).1, (h'.cores k).2.trans (h.cores k).2⟩
  datasets k d :=
    ⟨(h'.datasets k d).1.trans (h.datasets k d).1, (h'.datasets k d).2.trans (h.datasets k d).2⟩

/-- Where the host is does not matter. -/
theorem Plain.congr {s₁ : Process} (h : Plain s s₁) (hncores : s'.ncores = s₁.ncores)
    (hreads : s'.reads = s₁.reads) (hcores : s'.cores = s₁.cores)
    (hdatasets : s'.datasets = s₁.datasets) : Plain s s' :=
  ⟨hncores.trans h.ncores, hreads.trans h.reads, fun k => by rw [hcores]; exact h.cores k,
    fun k d => by rw [hdatasets]; exact h.datasets k d⟩

/-- A dataset record is replaced by one with the same mode and variables. -/
theorem Plain.setDataset {x : OpenRecord} (h : Plain s s')
    (hx : x.mode = (s'.datasets k d).mode ∧
      x.variableStates = (s'.datasets k d).variableStates) : Plain s (s'.setDataset k d x) where
  ncores := h.ncores
  reads := h.reads
  cores := h.cores
  datasets j e :=
    ⟨(setDataset_keeps OpenRecord.mode hx.1 j e).trans (h.datasets j e).1,
      (setDataset_keeps OpenRecord.variableStates hx.2 j e).trans (h.datasets j e).2⟩

/-- What a driver receives is plain. -/
theorem Plain.receive (s : Process) (k d : Nat) (calls : List DriverCall) :
    Plain s (s.receive k d calls) :=
  (Plain.refl s).setDataset ⟨rfl, rfl⟩

/-- A record of a core with as many datasets and queues. -/
theorem Plain.setCore {x : CoreRecord} (h : Plain s s')
    (hx : x.ndatasets = (s'.cores k).ndatasets ∧ x.nqueues = (s'.cores k).nqueues) :
    Plain s (s'.setCore k x) where
  ncores := h.ncores
  reads := h.reads
  cores j :=
    ⟨(setCore_keeps CoreRecord.ndatasets hx.1 j).trans (h.cores j).1,
      (setCore_keeps CoreRecord.nqueues hx.2 j).trans (h.cores j).2⟩
  datasets := h.datasets

/-- A step inside a core is plain. -/
theorem Plain.ioStep {iop : IoOp} (h : Plain s s') {s₁ : Process}
    (hran : s'.ioStep k iop = some s₁) : Plain s s₁ := by
  unfold Process.ioStep at hran
  obtain ⟨io, -, rfl⟩ := Option.map_eq_some_iff.mp hran
  have hsame : Plain s { s' with
      io := Function.update s'.io k io, handles := s'.handlesAfter k iop } :=
    ⟨h.ncores, h.reads, h.cores, h.datasets⟩
  simp only
  split
  · exact hsame.setDataset ⟨rfl, rfl⟩
  · exact hsame

/-- A queue is made, for dataset `d` of core `k`. -/
structure Added (s : Process) (k d : Nat) (s' : Process) : Prop where
  ncores : s'.ncores = s.ncores
  ndatasets : ∀ j, (s'.cores j).ndatasets = (s.cores j).ndatasets
  nqueues : ∀ j, (s'.cores j).nqueues = (s.cores j).nqueues + if j = k then 1 else 0
  reads : ∀ j q, s'.reads j q = if j = k ∧ q = (s.cores k).nqueues then d else s.reads j q
  mode : ∀ j e, (s'.datasets j e).mode = (s.datasets j e).mode
  names : ∀ j e, (s'.datasets j e).variableStates.map Prod.snd =
    (if j = k ∧ e = d then [(s.cores k).nqueues] else []) ++
      (s.datasets j e).variableStates.map Prod.snd

/-- A queue was added, and nothing else happened. -/
theorem Added.plain {s₁ : Process} (h : Added s k d s₁) (same : Plain s₁ s') : Added s k d s' where
  ncores := same.ncores.trans h.ncores
  ndatasets j := (same.cores j).1.trans (h.ndatasets j)
  nqueues j := (same.cores j).2.trans (h.nqueues j)
  reads j q := by
    rw [same.reads]
    exact h.reads j q
  mode j e := (same.datasets j e).1.trans (h.mode j e)
  names j e := by
    rw [(same.datasets j e).2]
    exact h.names j e

/-- What `resolve_variable` does: it knows the queue, or asks the driver, which may not find the
variable. -/
inductive Resolves (s : Process) (k d : Nat) : Option Nat → Process → Prop
  | known (q : Nat) (mem : q ∈ (s.datasets k d).variableStates.map Prod.snd) :
      Resolves s k d (some q) s
  | missing : Resolves s k d none (s.receive k d [.describe])
  | added {s' : Process} (more : Added s k d s')
      (life : ∀ j e, (s'.datasets j e).life = ((s.receive k d [.describe]).datasets j e).life) :
      Resolves s k d (some (s.cores k).nqueues) s'

/-- What looking a variable up can do. -/
theorem resolveVariable_cases {name : List UInt8} {known : Bool} {res : Option Nat}
    (h : s.resolveVariable k d name known = some (res, s')) : Resolves s k d res s' := by
  unfold resolveVariable at h
  split at h
  -- the dataset has a queue for the variable
  · next q hq =>
    obtain ⟨rfl, rfl⟩ := Prod.mk.inj (Option.some.inj h)
    obtain ⟨l₁, l₂, hl, -⟩ := List.lookup_eq_some_iff.mp hq
    exact .known q (by rw [hl]; simp)
  -- it has none, and the driver is asked
  · simp only at h
    split at h
    · split at h
      · obtain ⟨rfl, rfl⟩ := Prod.mk.inj (Option.some.inj h)
        refine .added ⟨rfl, fun j => ?_, fun j => ?_, fun j q => ?_, fun j e => ?_, fun j e => ?_⟩
          fun j e => ?_
        · exact setCore_keeps CoreRecord.ndatasets (by rfl) j
        · by_cases hj : j = k
          · subst hj
            simp [setCore, setDataset]
          · simp [setCore, setDataset, receive, hj]
        · by_cases hq : j = k ∧ q = (s.cores k).nqueues
          · rw [if_pos hq]
            obtain ⟨rfl, rfl⟩ := hq
            exact Lts.update_update_self
          · rw [if_neg hq]
            exact Lts.update_update_of_ne hq
        · exact (setDataset_keeps OpenRecord.mode (by rfl) j e).trans
            (setDataset_keeps OpenRecord.mode (by rfl) j e)
        · by_cases he : j = k ∧ e = d
          · obtain ⟨rfl, rfl⟩ := he
            simp [setCore, setDataset]
          · rw [if_neg he]
            exact congrArg (fun x : OpenRecord => x.variableStates.map Prod.snd)
              ((Lts.update_update_of_ne he).trans (Lts.update_update_of_ne he))
        · exact setDataset_keeps OpenRecord.life (by rfl) j e
      · cases h
    · obtain ⟨rfl, rfl⟩ := Prod.mk.inj (Option.some.inj h)
      exact .missing

/-- The cores that were there when one is made. -/
theorem init_cores (hk : k ≠ s.ncores) : (s.init none).cores k = s.cores k := by
  simp [init, ret, setCore, hk]

/-- The core that is made. -/
theorem init_cores_self : (s.init none).cores s.ncores =
    { token := s.handles.fresh .core (.core s.ncores) } := by
  simp [init, ret, setCore]

/-- What a step adds to the records: nothing, a core, a dataset, or a queue. -/
inductive Gains (s s' : Process) : Prop
  | none (same : Plain s s')
  | core (after : s' = s.init none)
  | dataset (k : Nat) (mode : Mode) (idle : s.call = .idle) (live : s.Holds (.core k))
      (after : s' = s.openDataset k mode none)
  | queue (k d : Nat) (idle : s.call = .idle) (live : s.Holds (.dataset k d))
      (mode : (s.datasets k d).mode = .read) (more : Added s k d s')

/-- What looking a variable up adds. -/
theorem Resolves.gains {res : Option Nat} {s₁ : Process} (h : Resolves s k d res s₁)
    (idle : s.call = .idle) (live : s.Holds (.dataset k d))
    (mode : (s.datasets k d).mode = .read) (same : Plain s₁ s') : Gains s s' := by
  cases h with
  | known => exact .none same
  | missing => exact .none ((Plain.receive s k d _).trans same)
  | added more => exact .queue k d idle live mode (more.plain same)

theorem Turn.gains (h : Turn s op s') : Gains s s' := by
  have hran : ∀ {j : Nat} {iop : IoOp} {s₁ : Process}, s.ioStep j iop = some s₁ → Plain s s₁ :=
    fun hran => (Plain.refl s).ioStep hran
  -- cores, datasets and queues are only ever added; the other turns change their fields
  cases h with
  | runs lt permitted ran => exact .none (hran ran)
  | inits => exact .core rfl
  | opens idle found => exact .dataset _ _ idle (.of_lookup found) rfl
  | writes idle found ran => exact .none ((hran ran).congr rfl rfl rfl rfl)
  | resolves status idle found mode resolved =>
    exact (resolveVariable_cases resolved).gains idle (.of_lookup found) mode
      ((Plain.refl _).congr rfl rfl rfl rfl)
  | reads idle found mode resolved ran =>
    exact (resolveVariable_cases resolved).gains idle (.of_lookup found) mode
      (((Plain.refl _).ioStep ran).congr rfl rfl rfl rfl)
  | @mints k d q c b s₁ before pc ran =>
    have hcore := (Plain.refl s).setCore (k := k)
      (x := { s.cores k with nviews := (s.cores k).nviews + 1 }) ⟨rfl, rfl⟩
    have hview := hcore.setDataset (k := k) (d := d)
      (x := { s.datasets k d with
        outstandingViews := u64 ((s.datasets k d).outstandingViews + 1) }) ⟨rfl, rfl⟩
    have hviewed : Plain s (s.withView k d q c) := hview.congr rfl rfl rfl rfl
    exact .none ((hviewed.ioStep ran).congr rfl rfl rfl rfl)
  | flushes idle found ran => exact .none ((hran ran).congr rfl rfl rfl rfl)
  | @releases token k v s₁ idle found alive ran =>
    have hviews := (hran ran).setDataset (k := k) (d := (s.views k v).dataset)
      (x := { s₁.datasets k (s.views k v).dataset with
        outstandingViews :=
          u64 ((s.datasets k (s.views k v).dataset).outstandingViews + (2 ^ 64 - 1)) }) ⟨rfl, rfl⟩
    exact .none (hviews.congr rfl rfl rfl rfl)
  | cancels before mem ran => exact .none ((hran ran).congr rfl rfl rfl rfl)
  | flushesDriver | tears => exact .none ((Plain.receive s _ _ _).congr rfl rfl rfl rfl)
  | @closesDriver ok k d result =>
    have hclosed := (Plain.refl s).setDataset (k := k) (d := d)
      (x := { s.datasets k d with
        received := (s.datasets k d).received ++ [DriverCall.close]
        closed := true }) ⟨rfl, rfl⟩
    exact .none (hclosed.congr rfl rfl rfl rfl)
  | @joins k =>
    have hjoined := (Plain.refl s).setCore (k := k) (x := { s.cores k with joined := true })
      ⟨rfl, rfl⟩
    exact .none (hjoined.congr rfl rfl rfl rfl)
  | @destroys k =>
    have hdeleted := (Plain.refl s).setCore (k := k) (x := { s.cores k with deleted := true })
      ⟨rfl, rfl⟩
    exact .none (hdeleted.congr rfl rfl rfl rfl)
  | returns | observes | waits | closes | drains | drained | surfaces | finalizes =>
    exact .none ((Plain.refl s).congr rfl rfl rfl rfl)

/-- Every queue was made for a dataset that is read, which knows it. -/
structure Queued (s : Process) : Prop where
  fresh : ∀ k, s.ncores ≤ k → (s.cores k).ndatasets = 0 ∧ (s.cores k).nqueues = 0
  named : ∀ k d, ∀ q ∈ (s.datasets k d).variableStates.map Prod.snd,
    q < (s.cores k).nqueues ∧ s.reads k q = d
  queued : ∀ k q, q < (s.cores k).nqueues → s.reads k q < (s.cores k).ndatasets ∧
    (s.datasets k (s.reads k q)).mode = .read ∧
    q ∈ (s.datasets k (s.reads k q)).variableStates.map Prod.snd

/-- A plain step keeps the queues. -/
theorem Queued.plain (h : Queued s) (same : Plain s s') : Queued s' where
  fresh k hk := by
    rw [same.ncores] at hk
    rw [(same.cores k).1, (same.cores k).2]
    exact h.fresh k hk
  named k d x hx := by
    rw [(same.datasets k d).2] at hx
    rw [(same.cores k).2, same.reads]
    exact h.named k d x hx
  queued k q hq := by
    rw [(same.cores k).2] at hq
    rw [same.reads, (same.cores k).1, (same.datasets k _).1, (same.datasets k _).2]
    exact h.queued k q hq

/-- A new core has no queues. -/
theorem Queued.core (h : Queued s) : Queued (s.init none) := by
  -- the new core has no dataset and no queue, as its record had none before
  have hcores : ∀ k, ((s.init none).cores k).ndatasets = (s.cores k).ndatasets ∧
      ((s.init none).cores k).nqueues = (s.cores k).nqueues := by
    intro k
    by_cases hk : k = s.ncores
    · subst hk
      rw [init_cores_self, (h.fresh _ le_rfl).1, (h.fresh _ le_rfl).2]
      exact ⟨rfl, rfl⟩
    · rw [init_cores hk]
      exact ⟨rfl, rfl⟩
  refine ⟨fun k hk => ?_, fun k d x hx => ?_, fun k q hq => ?_⟩
  · rw [(hcores k).1, (hcores k).2]
    exact h.fresh k (Nat.le_of_succ_le hk)
  · rw [(hcores k).2]
    exact h.named k d x hx
  · rw [(hcores k).2] at hq
    rw [(hcores k).1]
    exact h.queued k q hq

/-- A new dataset has no queues. -/
theorem Queued.dataset (h : Queued s) {mode : Mode} (hk : k < s.ncores) :
    Queued (s.openDataset k mode none) := by
  have hcounts := s.openDataset_counts k mode
  refine ⟨fun j hj => ?_, fun j e x hx => ?_, fun j q hq => ?_⟩
  -- a core that is not there yet has not been opened in
  · have hne : j ≠ k := by
      rintro rfl
      exact absurd hj (Nat.not_le.mpr hk)
    rw [(hcounts j).1, (hcounts j).2, if_neg hne]
    exact h.fresh j hj
  · rw [(hcounts j).2]
    rcases s.openDataset_cases k mode j e with ⟨-, -, hnew⟩ | ⟨-, hsame⟩
    · -- a dataset that is new knows no queue
      rw [hnew] at hx
      cases hx
    · rw [hsame] at hx
      exact h.named j e x hx
  · rw [(hcounts j).2] at hq
    obtain ⟨hlt, hmode, hmem⟩ := h.queued j q hq
    constructor
    · rw [(hcounts j).1]
      exact Nat.lt_add_right _ hlt
    · rcases s.openDataset_cases k mode j (s.reads j q) with ⟨rfl, heq, -⟩ | ⟨-, hsame⟩
      -- the dataset of a queue is older than the new one
      · exact absurd heq (Nat.ne_of_lt hlt)
      · show ((s.openDataset k mode none).datasets j (s.reads j q)).mode = _ ∧
          q ∈ ((s.openDataset k mode none).datasets j (s.reads j q)).variableStates.map Prod.snd
        rw [hsame]
        exact ⟨hmode, hmem⟩

/-- A new queue is known to its dataset. -/
theorem Queued.queue (h : Queued s) (hk : k < s.ncores) (hd : d < (s.cores k).ndatasets)
    (hmode : (s.datasets k d).mode = .read) (more : Added s k d s') : Queued s' := by
  -- the queues that were there are read for the same datasets
  have hold : ∀ {j q : Nat}, q < (s.cores j).nqueues → s'.reads j q = s.reads j q := by
    intro j q hq
    rw [more.reads, if_neg]
    rintro ⟨rfl, rfl⟩
    exact Nat.lt_irrefl _ hq
  have hnew : s'.reads k (s.cores k).nqueues = d := by rw [more.reads, if_pos ⟨rfl, rfl⟩]
  refine ⟨fun j hj => ?_, fun j e q hq => ?_, fun j q hq => ?_⟩
  · rw [more.ncores] at hj
    have hne : j ≠ k := by omega
    rw [more.ndatasets, more.nqueues, if_neg hne]
    exact h.fresh j hj
  · rw [more.names] at hq
    rw [more.nqueues]
    rcases List.mem_append.mp hq with hself | hmem
    · split at hself
      · next heq =>
        obtain ⟨rfl, rfl⟩ := heq
        obtain rfl := List.mem_singleton.mp hself
        rw [if_pos rfl]
        exact ⟨Nat.lt_succ_self _, hnew⟩
      · cases hself
    · obtain ⟨hlt, hread⟩ := h.named j e q hmem
      exact ⟨Nat.lt_add_right _ hlt, (hold hlt).trans hread⟩
  · rw [more.ndatasets, more.mode, more.names]
    by_cases hlt : q < (s.cores j).nqueues
    · obtain ⟨hread, hm, hmem⟩ := h.queued j q hlt
      rw [hold hlt]
      exact ⟨hread, hm, List.mem_append_right _ hmem⟩
    · rw [more.nqueues] at hq
      split at hq
      · next heq =>
        subst heq
        obtain rfl : q = (s.cores j).nqueues := by omega
        rw [hnew, if_pos ⟨rfl, rfl⟩]
        exact ⟨hd, hmode, List.mem_append_left _ (List.mem_singleton_self _)⟩
      · omega

/-- Every step keeps the queues in their place. -/
theorem Queued.step (h : Queued s) (hs : Registered s) (hstep : s.step op = some s') :
    Queued s' := by
  cases (step_turns hstep).gains with
  | none same => exact h.plain same
  | core after => exact after ▸ h.core
  | dataset k mode idle live after => exact after ▸ h.dataset (hs.active_of_holds live).1
  | queue k d idle live mode more =>
    obtain ⟨hk, hd, -⟩ := hs.active_of_holds live
    exact h.queue hk hd mode more

theorem Queued.initial (hinit : system.init s) : Queued s := by
  obtain ⟨-, -, hcores, -, hdatasets, -⟩ := hinit
  refine ⟨fun k _ => ?_, fun k d q hq => ?_, fun k q hq => ?_⟩
  · rw [hcores]
    exact ⟨rfl, rfl⟩
  · rw [hdatasets] at hq
    cases hq
  · rw [hcores] at hq
    exact absurd hq (Nat.not_lt_zero q)

/-! ### Queues that are not made yet -/

/-- Datasets and queues are never taken away. -/
theorem Gains.counts_le (h : Gains s s') (hq : Queued s) (k : Nat) :
    (s.cores k).ndatasets ≤ (s'.cores k).ndatasets ∧
      (s.cores k).nqueues ≤ (s'.cores k).nqueues := by
  cases h with
  | none same => exact ⟨(same.cores k).1.ge, (same.cores k).2.ge⟩
  | core after =>
    subst after
    -- a new core starts with none, as the one that was not there
    by_cases hk : k = s.ncores
    · subst hk
      rw [(hq.fresh _ le_rfl).1, (hq.fresh _ le_rfl).2]
      exact ⟨Nat.zero_le _, Nat.zero_le _⟩
    · rw [init_cores hk]
      exact ⟨le_rfl, le_rfl⟩
  | dataset j mode idle live after =>
    subst after
    rw [(s.openDataset_counts j mode k).1, (s.openDataset_counts j mode k).2]
    exact ⟨Nat.le_add_right _ _, le_rfl⟩
  | queue j d idle live mode more =>
    rw [more.ndatasets, more.nqueues]
    exact ⟨le_rfl, Nat.le_add_right _ _⟩

/-- The queue that is found is there. -/
theorem Resolves.lt {res : Option Nat} (h : Resolves s k d res s') (hq : Queued s) :
    ∀ q, res = some q → q < (s'.cores k).nqueues := by
  rintro q rfl
  cases h with
  | known q mem => exact (hq.named k d q mem).1
  | added more =>
    rw [more.nqueues, if_pos rfl]
    exact Nat.lt_succ_self _

/-- A step of core `j`, unless it is the first call on the queue. -/
theorem ioStep_unused {s₁ s₂ : Process} {j : Nat} {iop : IoOp} (hio : s₁.io = s.io)
    (ran : s₁.ioStep j iop = some s₂) (hio' : s'.io = s₂.io)
    (hop : k = j → ∀ kind t bbox, iop ≠ .read q (.begin kind t bbox))
    (h : ((s.io k).queues q).ncalls = 0 ∧ ((s.io k).queues q).nfetches = 0) :
    ((s'.io k).queues q).ncalls = 0 ∧ ((s'.io k).queues q).nfetches = 0 := by
  have hran := ioStep_ran ran
  rw [← hio] at h
  rw [hio']
  -- a queue is used first by a call that begins on it
  by_cases hk : k = j
  · subst hk
    rcases IoRun.step_queue_checked hran.step q with hsame | ⟨rop, rfl, hchecked⟩
    · rw [hsame]
      exact h
    · obtain ⟨hcalls, hfetches⟩ := hchecked.unused
        (fun kind t bbox heq => hop rfl kind t bbox (by rw [heq])) h.1
      exact ⟨hcalls, hfetches.trans h.2⟩
  · rw [hran.elsewhere k hk]
    exact h

/-- Nothing is called on a queue before it is made. -/
structure Unused (s : Process) : Prop where
  unused : ∀ k q, (s.cores k).nqueues ≤ q →
    ((s.io k).queues q).ncalls = 0 ∧ ((s.io k).queues q).nfetches = 0
  reading : ∀ k d q c, s.call = .reading k d q c → q < (s.cores k).nqueues

theorem Unused.initial (hinit : system.init s) : Unused s := by
  obtain ⟨-, -, -, hio, -, -, -, -, hcall, -⟩ := hinit
  refine ⟨fun k q _ => ?_, fun k d q c hreading => ?_⟩
  · obtain ⟨a, n, bp, ids, -, -, -, -, hqueues⟩ := (hio k).1
    obtain ⟨depth, id, name, info, hq⟩ := hqueues q
    rw [hq]
    exact ⟨rfl, rfl⟩
  · rw [hcall] at hreading
    cases hreading

/-- What has not been made yet is not used, after every step. -/
theorem Unused.step (h : Unused s) (hq : Queued s) (hstep : s.step op = some s') : Unused s' := by
  have hturn := step_turns hstep
  have hle : ∀ k, (s.cores k).nqueues ≤ (s'.cores k).nqueues :=
    fun k => (hturn.gains.counts_le hq k).2
  refine ⟨fun k q hlt => ?_, fun k d q c hcall => ?_⟩
  · have hold := h.unused k q ((hle k).trans hlt)
    cases hturn with
    | runs _ permitted ran =>
      refine ioStep_unused rfl ran rfl (fun _ kind t bbox heq => ?_) hold
      subst heq
      simp [Process.permitted] at permitted
    | writes idle found ran | flushes idle found ran =>
      exact ioStep_unused rfl ran rfl (by simp) hold
    | releases idle found alive ran => exact ioStep_unused rfl ran rfl (by simp) hold
    | cancels before mem ran => exact ioStep_unused rfl ran rfl (by simp) hold
    | reads idle found mode resolved ran =>
      refine ioStep_unused (resolveVariable_io resolved).1 ran rfl
        (fun hk kind t bbox heq => ?_) hold
      -- the queue that is read has been made by now
      subst hk
      obtain ⟨rfl, -⟩ := IoOp.read.inj heq
      have hmade := (resolveVariable_cases resolved).lt hq _ rfl
      rw [← (ioStep_ran ran).cores] at hmade
      exact Nat.not_le.mpr hmade hlt
    | mints before pc ran =>
      refine ioStep_unused rfl ran rfl (fun hk kind t bbox heq => ?_) hold
      subst hk
      obtain ⟨rfl, -⟩ := IoOp.read.inj heq
      exact Nat.not_le.mpr (h.reading _ _ _ _ before) ((hle k).trans hlt)
    | @resolves _ _ _ _ _ _ _ s₁ status idle found mode resolved =>
      have hio : (s₁.ret status).io = s.io := (resolveVariable_io resolved).1
      rw [hio]
      exact hold
    | returns | observes | inits | opens | waits | closes | drains | drained | surfaces
    | flushesDriver | closesDriver | finalizes | joins | tears | destroys => exact hold
  · cases hturn with
    | runs _ _ ran =>
      rw [(ioStep_ran ran).call] at hcall
      exact (h.reading k d q c hcall).trans_le (hle k)
    | reads idle found mode resolved ran =>
      obtain ⟨rfl, rfl, rfl, rfl⟩ := ApiCall.reading.inj hcall
      have hmade := (resolveVariable_cases resolved).lt hq _ rfl
      rwa [← (ioStep_ran ran).cores] at hmade
    | _ => cases hcall

/-- A queue that has a fetch has been made. -/
theorem Unused.lt (h : Unused s) {f : Nat} (hf : f < ((s.io k).queues q).nfetches) :
    q < (s.cores k).nqueues := by
  by_contra hq
  rw [(h.unused k q (Nat.not_lt.mp hq)).2] at hf
  exact Nat.not_lt_zero f hf

end Process

end Amio
