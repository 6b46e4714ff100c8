import Amio.Api.Queues

/-!
# What a driver is asked

Each step of the process means nothing to a driver, or asks it one thing (`Turn.happens`): a worker
or a call of the host asks it to read, to write or to describe a variable, `close_dataset` flushes
it and then closes it, and `finalize` does both at once.
-/

namespace Amio

/-- The dataset whose driver `close_dataset` has flushed, and is about to close. -/
def ApiCall.flushes : ApiCall → Option (Nat × Nat)
  | .flushed k d _ => some (k, d)
  | _ => none

/-- Only a close flushes the driver. -/
theorem ApiCall.flushes_eq_none {call : ApiCall} (h : call.isClose = false) :
    call.flushes = none := by
  cases call with
  | flushed => cases h
  | _ => rfl

namespace Process

variable {s s' : Process} {k d q c : Nat} {op : ApiOp}

/-! ### What a driver is asked -/

/-- Why a driver is asked to describe a variable, to write or to read. -/
inductive Asks (s : Process) (k d : Nat) : DriverCall → Prop
  | describe (idle : s.call = .idle) (live : s.Holds (.dataset k d))
      (mode : (s.datasets k d).mode = .read) : Asks s k d .describe
  | write (w c : Nat) (running : (s.cores k).joined = false)
      (run : (s.io k).writes.runningCall w = some c)
      (pc : ((s.io k).writes.calls c).cb = .entered)
      (args : ((s.io k).writes.calls c).args.dataset = d) : Asks s k d .write
  | read (q f : Nat) (running : (s.cores k).joined = false) (reads : s.reads k q = d)
      (lt : f < ((s.io k).queues q).nfetches)
      (committed : (((s.io k).queues q).fetches f).phase.committed = true) : Asks s k d .read

/-- The driver of dataset `d` of core `k` is asked `calls`, and nothing else happens to it. -/
def Receives (s s' : Process) (k d : Nat) (calls : List DriverCall) : Prop :=
  (s'.datasets k d).life =
    ((s.datasets k d).mode, (s.datasets k d).closed, (s.datasets k d).received ++ calls)

/-- What a step means to the driver of dataset `d` of core `k`. -/
inductive Happens (s : Process) (op : ApiOp) (s' : Process) (k d : Nat) : Prop
  | nothing (same : (s'.datasets k d).life = (s.datasets k d).life)
      (call : s'.call.flushes = some (k, d) ↔ s.call.flushes = some (k, d))
  | asked (x : DriverCall) (asks : Asks s k d x) (received : Receives s s' k d [x])
      (call : s'.call.flushes = some (k, d) ↔ s.call.flushes = some (k, d))
  | flushed (r : AmioErr) (ok : Bool) (isFlush : op = .flushDriver ok)
      (before : s.call = .closing k d r) (received : Receives s s' k d [.flush])
      (after : s'.call.flushes = some (k, d))
  | closed (before : s.call.flushes = some (k, d))
      (received : (s'.datasets k d).life =
        ((s.datasets k d).mode, true, (s.datasets k d).received ++ [.close]))
  | torn (rest : List Nat) (ok : Bool) (before : s.call = .tearing k rest) (mem : d ∈ rest)
      (received : Receives s s' k d (if ok then [.flush, .close] else [.flush]))
      (after : s'.call = .tearing k (rest.erase d))

/-- Neither before the step nor after it has `close_dataset` flushed a driver. -/
theorem flushes_iff (h : s.call.flushes = none) (h' : s'.call.flushes = none) :
    s'.call.flushes = some (k, d) ↔ s.call.flushes = some (k, d) := by
  rw [h, h']

/-- The calls go to the driver of one dataset, and to no other. -/
theorem receive_cases (s : Process) (k d : Nat) (calls : List DriverCall) (j e : Nat) :
    (j = k ∧ e = d ∧ Receives s (s.receive k d calls) j e calls) ∨
      (¬ (j = k ∧ e = d) ∧
        ((s.receive k d calls).datasets j e).life = (s.datasets j e).life) := by
  unfold receive Receives
  rcases setDataset_cases s k d
    { s.datasets k d with received := (s.datasets k d).received ++ calls } j e with
    ⟨rfl, rfl, heq⟩ | ⟨hne, heq⟩
  · exact .inl ⟨rfl, rfl, congrArg OpenRecord.life heq⟩
  · exact .inr ⟨hne, congrArg OpenRecord.life heq⟩

/-- Views are none of the driver's business. -/
theorem setDataset_views_life (s : Process) (k d n j e : Nat) :
    ((s.setDataset k d { s.datasets k d with outstandingViews := n }).datasets j e).life =
      (s.datasets j e).life := by
  rcases setDataset_cases s k d { s.datasets k d with outstandingViews := n } j e with
    ⟨rfl, rfl, heq⟩ | ⟨-, heq⟩
  · rw [heq]
    rfl
  · rw [heq]

/-- A driver is asked, by a step that leaves the others alone. -/
theorem Asks.happens {x : DriverCall} (asks : Asks s k d x) {j e : Nat}
    (life : (s'.datasets j e).life = ((s.receive k d [x]).datasets j e).life)
    (call : s'.call.flushes = some (j, e) ↔ s.call.flushes = some (j, e)) :
    Happens s op s' j e := by
  rcases receive_cases s k d [x] j e with ⟨rfl, rfl, hreceives⟩ | ⟨-, heq⟩
  · exact .asked x asks (life.trans hreceives) call
  · exact .nothing (life.trans heq) call

/-- The calls that reach a driver inside a core. -/
theorem driverCall_asks {iop : IoOp} {call : DriverCall} {s₁ : Process}
    (hpermitted : s.permitted k iop = true) (ran : s.ioStep k iop = some s₁)
    (h : s.driverCall k iop = some (d, call)) : Asks s k d call := by
  unfold driverCall at h
  split at h
  -- the callback of a write, on a thread of the pool
  · next w ok =>
    obtain ⟨c, hrun, hc⟩ := Option.bind_eq_some_iff.mp h
    simp only [Option.ite_none_right_eq_some] at hc
    obtain ⟨hpc, hc⟩ := hc
    obtain ⟨hd, rfl⟩ := Prod.mk.inj (Option.some.inj hc)
    exact .write w c (by simpa [permitted] using hpermitted) hrun hpc hd
  -- the fetch of a queue, which has checked `cancelled_`
  · next q f payload =>
    obtain ⟨hd, rfl⟩ := Prod.mk.inj (Option.some.inj h)
    obtain ⟨hread, -⟩ := IoRun.step_read (ioStep_ran ran).step
    obtain ⟨r, hr, -⟩ := Option.map_eq_some_iff.mp hread
    obtain ⟨hlt, hcommitted⟩ := PrefetchRun.committed_of_read hr
    exact .read q f (by simpa [permitted] using hpermitted) hd hlt hcommitted
  · cases h

/-- A step of a core that calls no driver leaves the life of every dataset. -/
theorem ioStep_life {iop : IoOp} {j : Nat} {s₁ : Process} (ran : s.ioStep j iop = some s₁)
    (h : s.driverCall j iop = none) (k d : Nat) :
    (s₁.datasets k d).life = (s.datasets k d).life := by
  rw [(ioStep_ran ran).undriven h]

/-- The `describe` of a variable that is looked up. -/
theorem Resolves.happens {res : Option Nat} {s₁ : Process} (h : Resolves s k d res s₁)
    (idle : s.call = .idle) (live : s.Holds (.dataset k d))
    (mode : (s.datasets k d).mode = .read) {j e : Nat}
    (life : (s'.datasets j e).life = (s₁.datasets j e).life)
    (after : s'.call.flushes = none) : Happens s op s' j e := by
  have hcall : s'.call.flushes = some (j, e) ↔ s.call.flushes = some (j, e) :=
    flushes_iff (by rw [idle]; rfl) after
  have hasks : Asks s k d .describe := .describe idle live mode
  cases h with
  | known => exact .nothing life hcall
  | missing => exact hasks.happens life hcall
  | added more added => exact hasks.happens (life.trans (added j e)) hcall

/-- **What a step means to a driver.** -/
theorem Turn.happens (h : Turn s op s') (hd : d < (s.cores k).ndatasets) : Happens s op s' k d := by
  -- most steps have nothing to do with a driver that is flushed
  have hidle : s.call = .idle → s.call.flushes = none := fun idle => by rw [idle]; rfl
  cases h with
  | @runs j iop _ lt permitted ran =>
    have hcall : s'.call.flushes = some (k, d) ↔ s.call.flushes = some (k, d) := by
      rw [(ioStep_ran ran).call]
    cases hdriver : s.driverCall j iop with
    | none => exact .nothing (ioStep_life ran hdriver k d) hcall
    | some x =>
      obtain ⟨e, call⟩ := x
      refine (driverCall_asks permitted ran hdriver).happens ?_ hcall
      unfold ioStep at ran
      obtain ⟨io, -, rfl⟩ := Option.map_eq_some_iff.mp ran
      simp only [hdriver]
      rfl
  | returns status close => exact .nothing rfl (flushes_iff (ApiCall.flushes_eq_none close) rfl)
  | observes before => exact .nothing rfl (flushes_iff (by rw [before]; rfl) rfl)
  | inits idle | waits idle | closes idle | finalizes idle =>
    exact .nothing rfl (flushes_iff (hidle idle) rfl)
  | writes idle found ran | flushes idle found ran =>
    exact .nothing (ioStep_life ran rfl k d) (flushes_iff (hidle idle) rfl)
  | resolves status idle found mode resolved =>
    exact (resolveVariable_cases resolved).happens idle (.of_lookup found) mode rfl rfl
  | reads idle found mode resolved ran =>
    exact (resolveVariable_cases resolved).happens idle (.of_lookup found) mode
      (ioStep_life ran rfl k d) rfl
  | @opens token j mode idle =>
    -- the new dataset is none of those that were there
    rcases s.openDataset_cases j mode k d with ⟨rfl, rfl, -⟩ | ⟨-, heq⟩
    · exact absurd hd (Nat.lt_irrefl _)
    · exact .nothing (congrArg OpenRecord.life heq) (flushes_iff (hidle idle) rfl)
  | @mints j e q c b s₁ before pc ran =>
    exact .nothing ((ioStep_life ran rfl k d).trans (setDataset_views_life s j e _ k d))
      (flushes_iff (by rw [before]; rfl) rfl)
  | @releases token j v s₁ idle found alive ran =>
    exact .nothing ((setDataset_views_life s₁ j (s.views j v).dataset _ k d).trans
      (ioStep_life ran rfl k d)) (flushes_iff (hidle idle) rfl)
  | cancels before mem ran =>
    exact .nothing (ioStep_life ran rfl k d) (flushes_iff (by rw [before]; rfl) rfl)
  | drains before | drained before | surfaces before | joins before | destroys before =>
    exact .nothing rfl (flushes_iff (by rw [before]; rfl) rfl)
  | @flushesDriver ok j e r before =>
    rcases receive_cases s j e [.flush] k d with ⟨rfl, rfl, hreceives⟩ | ⟨hne, heq⟩
    · exact .flushed r ok rfl before hreceives rfl
    · refine .nothing heq ⟨fun hcall => ?_, fun hcall => ?_⟩
      · obtain ⟨rfl, rfl⟩ := Prod.mk.inj (Option.some.inj hcall)
        exact absurd ⟨rfl, rfl⟩ hne
      · rw [before] at hcall
        cases hcall
  | @closesDriver ok j e r before =>
    rcases setDataset_cases s j e
      { s.datasets j e with
        received := (s.datasets j e).received ++ [DriverCall.close]
        closed := true } k d with ⟨rfl, rfl, heq⟩ | ⟨hne, heq⟩
    · exact .closed (by rw [before]; rfl) (congrArg OpenRecord.life heq)
    · refine .nothing (congrArg OpenRecord.life heq) ⟨fun hcall => ?_, fun hcall => ?_⟩
      · cases hcall
      · rw [before] at hcall
        obtain ⟨rfl, rfl⟩ := Prod.mk.inj (Option.some.inj hcall)
        exact absurd ⟨rfl, rfl⟩ hne
  | @tears j e rest ok before mem =>
    rcases receive_cases s j e (if ok then [.flush, .close] else [.flush]) k d with
      ⟨rfl, rfl, hreceives⟩ | ⟨-, heq⟩
    · exact .torn rest ok before mem hreceives rfl
    · exact .nothing heq (flushes_iff (by rw [before]; rfl) rfl)

/-- The mode of a dataset does not change. -/
theorem Happens.mode (h : Happens s op s' k d) :
    (s'.datasets k d).mode = (s.datasets k d).mode := by
  cases h with
  | nothing same => exact congrArg Prod.fst same
  | asked _ _ after | flushed _ _ _ _ after | closed _ after | torn _ _ _ _ after =>
    exact congrArg Prod.fst after

end Process

end Amio
