import Amio.Api.DriverCalls

/-!
# Orderly runs

Nothing in the code holds the host to the life of a driver that `backend_driver.hpp` documents.
`write` does not look at the mode, `close_dataset` goes on after thirty seconds and does not wait
for the fetches that are past their cancellation check, and `finalize` walks a map that still has
the datasets that were closed. Runs in which none of this matters are `orderly`.

* `Written` — a write that may still reach a driver is one to a dataset opened for writing.
* `Closing` — `close_dataset` is at an open dataset, and has cancelled the queues it has come to.
* `Ending` — `finalize` comes once to each dataset, none of which is closed, after the workers are
  joined.
-/

namespace Amio

/-- The dataset that `close_dataset` is at, and the queues that it has still to cancel. -/
def ApiCall.closes : ApiCall → Option (Nat × Nat × List Nat)
  | .cancelling k d rest => some (k, d, rest)
  | .draining k d | .surfacing k d | .closing k d _ | .flushed k d _ => some (k, d, [])
  | _ => none

namespace Process

variable {s s' : Process} {k d q c : Nat} {op : ApiOp}

/-! ### The condition -/

/-- Nothing of dataset `d` is still to reach its driver: its writes have, or were not accepted, and
no fetch of its queues is past its cancellation check and has still to read. -/
def reached (s : Process) (k d : Nat) : Bool :=
  ((List.range (s.io k).writes.ncalls).all fun c =>
    decide (((s.io k).writes.calls c).args.dataset ≠ d) || ((s.io k).writes.calls c).spent) &&
  (List.range (s.cores k).nqueues).all fun q => decide (s.reads k q ≠ d) ||
    (List.range ((s.io k).queues q).nfetches).all fun f =>
      !(((s.io k).queues q).fetches f).phase.committed

/-- A write with valid arguments is made on a dataset that was opened for writing; `close_dataset`
flushes a driver when nothing is still to reach it; and `finalize` is called on a core none of whose
datasets has been closed. -/
def orderly (s : Process) : ApiOp → Bool
  -- `write` does not ask for the mode of the dataset
  | .write token args _ =>
    match s.handles.table.lookup token .dataset with
    | (.ok, some (.dataset k d)) =>
      decide (args.check ≠ .ok) || decide ((s.datasets k d).mode = .write)
    | _ => true
  -- the close has waited for the writes, not for the fetches
  | .flushDriver _ =>
    match s.call with
    | .closing k d _ => s.reached k d
    | _ => true
  -- the teardown flushes and closes also a dataset that has been closed
  | .finalize token =>
    match s.handles.table.lookup token .core with
    | (.ok, some (.core k)) =>
      (List.range (s.cores k).ndatasets).all fun d => !(s.datasets k d).closed
    | _ => true
  | _ => true

/-- Every write of the dataset has called the driver or been refused, and no fetch of it is
committed. -/
theorem reached_iff : s.reached k d = true ↔
    (∀ c, c < (s.io k).writes.ncalls → ((s.io k).writes.calls c).args.dataset = d →
      ((s.io k).writes.calls c).spent = true) ∧
    ∀ q, q < (s.cores k).nqueues → s.reads k q = d → ∀ f, f < ((s.io k).queues q).nfetches →
      (((s.io k).queues q).fetches f).phase.committed = false := by
  simp only [reached, Bool.and_eq_true, List.all_eq_true, List.mem_range, Bool.or_eq_true,
    decide_eq_true_eq, Bool.not_eq_true', ne_eq, imp_iff_not_or]

/-! ### Datasets that are written -/

/-- The writes of a core after a step. -/
theorem step_calls (hisolated : ∀ k, (s.io k).Isolated) (hstep : s.step op = some s')
    (hc : c < (s'.io k).writes.ncalls) :
    (c < (s.io k).writes.ncalls ∧
      ((s'.io k).writes.calls c).args = ((s.io k).writes.calls c).args ∧
      (((s.io k).writes.calls c).spent = true → ((s'.io k).writes.calls c).spent = true)) ∨
    ∃ token args region d, op = .write token args region ∧ s.call = .idle ∧
      s.handles.table.lookup token .dataset = (.ok, some (.dataset k d)) ∧
      ((s'.io k).writes.calls c).args.dataset = d ∧
      (args.check ≠ .ok → ((s'.io k).writes.calls c).spent = true) := by
  cases step_inside hstep with
  | still io | observes _ _ _ _ _ io =>
    rw [io] at hc ⊢
    exact .inl ⟨hc, rfl, id⟩
  | moves j iop t step elsewhere cause =>
    by_cases hj : k = j
    -- the call is old, or it is the one that this step has made
    · subst hj
      rcases IoRun.step_calls ((hisolated k).withHandles t) step hc with
        hold | ⟨args, region, rfl, hargs, hspent⟩
      · exact .inl hold
      · cases cause with
        | run _ _ _ permitted => simp [Process.permitted] at permitted
        | write token args region k d idle found =>
          exact .inr ⟨token, args, region, d, rfl, idle, found, by rw [hargs], hspent⟩
    · rw [elsewhere k hj] at hc ⊢
      exact .inl ⟨hc, rfl, id⟩

/-- A write that may still reach a driver is one to a dataset opened for writing. -/
def Written (s : Process) : Prop := ∀ k c, c < (s.io k).writes.ncalls →
  ((s.io k).writes.calls c).spent = true ∨
    (((s.io k).writes.calls c).args.dataset < (s.cores k).ndatasets ∧
      (s.datasets k ((s.io k).writes.calls c).args.dataset).mode = .write)

/-- Writes are of open datasets, after every orderly step. -/
theorem Written.step (h : Written s) (hs : Registered s) (hq : Queued s)
    (hisolated : ∀ k, (s.io k).Isolated) (hok : s.orderly op = true)
    (hstep : s.step op = some s') : Written s' := by
  intro k c hc
  have hturn := step_turns hstep
  -- a dataset that is there stays there, in the mode it was opened in
  have hkeep : ∀ d, d < (s.cores k).ndatasets → (s.datasets k d).mode = .write →
      d < (s'.cores k).ndatasets ∧ (s'.datasets k d).mode = .write := fun d hd hmode =>
    ⟨hd.trans_le ((hturn.gains.counts_le hq k).1), (hturn.happens hd).mode.trans hmode⟩
  rcases step_calls hisolated hstep hc with
    ⟨hlt, hargs, hspent⟩ | ⟨token, args, region, d, rfl, idle, found, hd, hspent⟩
  · rw [hargs]
    exact (h k c hlt).imp hspent fun hw => hkeep _ hw.1 hw.2
  · rw [hd]
    by_cases hcheck : args.check = .ok
    · have hheld : s.Holds (.dataset k d) := .of_lookup found
      obtain ⟨-, hlt, -⟩ := hs.active_of_holds hheld
      refine .inr (hkeep d hlt ?_)
      simpa [orderly, found, hcheck] using hok
    · exact .inl (hspent hcheck)

/-! ### Inside `close_dataset` -/

/-- A cancelled queue stays cancelled. -/
theorem ioStep_cancelled {iop : IoOp} {j : Nat} {s₁ : Process} (ran : s.ioStep j iop = some s₁)
    (h : ((s.io k).queues q).stage.queue.cancelled = true) :
    ((s₁.io k).queues q).stage.queue.cancelled = true := by
  have hran := ioStep_ran ran
  by_cases hk : k = j
  · subst hk
    rcases IoRun.step_queue_checked hran.step q with hsame | ⟨rop, -, hchecked⟩
    · rw [hsame]
      exact h
    · exact hchecked.cancelled h
  · rw [hran.elsewhere k hk]
    exact h

/-- Where `close_dataset` is: the dataset is open, and the queues that it has come to are
cancelled. -/
structure AtClose (s : Process) (k d : Nat) (rest : List Nat) : Prop where
  lt : d < (s.cores k).ndatasets
  opened : (s.datasets k d).closed = false
  cancelled : ∀ q, q < (s.cores k).nqueues → s.reads k q = d → q ∉ rest →
    ((s.io k).queues q).stage.queue.cancelled = true

def Closing (s : Process) : Prop :=
  ∀ k d rest, s.call.closes = some (k, d, rest) → s.AtClose k d rest

/-- A step inside a core does not undo what `close_dataset` has done. -/
theorem AtClose.ioStep {rest : List Nat} {iop : IoOp} {j : Nat} {s₁ : Process}
    (h : s.AtClose k d rest) (ran : s.ioStep j iop = some s₁) : s₁.AtClose k d rest where
  lt := by
    rw [(ioStep_ran ran).cores]
    exact h.lt
  opened := (face_eq_dataset ((ioStep_ran ran).datasets k d)).2.2.2.trans h.opened
  cancelled q hq hread hrest := by
    rw [(ioStep_ran ran).cores] at hq
    rw [((Plain.refl s).ioStep ran).reads] at hread
    exact ioStep_cancelled ran (h.cancelled q hq hread hrest)

theorem AtClose.congr {rest : List Nat} (h : s.AtClose k d rest) (hcores : s'.cores = s.cores)
    (hreads : s'.reads = s.reads) (hio : s'.io = s.io)
    (hclosed : (s'.datasets k d).closed = (s.datasets k d).closed) : s'.AtClose k d rest where
  lt := by
    rw [hcores]
    exact h.lt
  opened := hclosed.trans h.opened
  cancelled q hq hread hrest := by
    rw [hcores] at hq
    rw [hreads] at hread
    rw [hio]
    exact h.cancelled q hq hread hrest

/-- One more queue is cancelled. -/
theorem AtClose.cancel {rest : List Nat} (h : s.AtClose k d rest)
    (ran : s.ioStep k (.read q .cancel) = some s') : s'.AtClose k d (rest.erase q) where
  lt := (h.ioStep ran).lt
  opened := (h.ioStep ran).opened
  cancelled p hp hread hrest := by
    by_cases hpq : p = q
    · subst hpq
      exact IoRun.cancelled_of_cancel (ioStep_ran ran).step
    · refine (h.ioStep ran).cancelled p hp hread fun hmem => hrest ?_
      exact (List.mem_erase_of_ne hpq).mpr hmem

/-- Every step keeps what is known of a close. -/
theorem Closing.step (h : Closing s) (hs : Registered s) (hq : Queued s)
    (hstep : s.step op = some s') : Closing s' := by
  intro k d rest hcall
  have hat : ∀ {call : ApiCall}, s.call = call → call.closes = some (k, d, rest) →
      s.AtClose k d rest := fun before hcloses => h k d rest (by rw [before]; exact hcloses)
  cases step_turns hstep with
  | runs lt permitted ran =>
    rw [(ioStep_ran ran).call] at hcall
    exact (h k d rest hcall).ioStep ran
  | closes idle found =>
    obtain ⟨rfl, rfl, rfl⟩ : _ ∧ _ ∧ _ := by simpa [ApiCall.closes] using hcall
    have hheld : s.Holds (.dataset _ _) := .of_lookup found
    obtain ⟨-, hlt, hopen, -⟩ := hs.active_of_holds hheld
    refine ⟨hlt, hopen, fun q hlt hread hrest => absurd ?_ hrest⟩
    -- a queue is known to the dataset that it is read for
    obtain ⟨-, -, hmem⟩ := hq.queued _ q hlt
    rwa [show s.reads _ q = _ from hread] at hmem
  | cancels before mem ran =>
    obtain ⟨rfl, rfl, rfl⟩ : _ ∧ _ ∧ _ := by simpa [ApiCall.closes] using hcall
    exact ((h _ _ _ (by rw [before]; rfl)).cancel ran).congr rfl rfl rfl rfl
  | drains before | drained before | surfaces before =>
    exact (hat before hcall).congr rfl rfl rfl rfl
  | @flushesDriver ok j e r before =>
    refine (hat before hcall).congr rfl rfl rfl ?_
    exact (face_eq_dataset (receive_face s j e [.flush] k d)).2.2.2
  | _ => cases hcall

/-! ### Inside `finalize` -/

/-- `finalize` joins the workers of a core before it comes to its datasets, and once each. The
workers of a core are joined in `finalize` and when it is deleted. -/
structure Ending (s : Process) : Prop where
  opened : ∀ k, s.call.isFinal = true → s.call.home = some k →
    ∀ d, d < (s.cores k).ndatasets → (s.datasets k d).closed = false
  tearing : ∀ k rest, s.call = .tearing k rest → (s.cores k).joined = true ∧ rest.Nodup
  joined : ∀ k, (s.cores k).joined = true →
    (s.cores k).deleted = true ∨ ∃ rest, s.call = .tearing k rest

/-- What a step does to the workers of core `k`, to the core, and to what `finalize` has still to
come to. -/
inductive Flags (s s' : Process) (k : Nat) : Prop
  | same (joined : (s'.cores k).joined = (s.cores k).joined)
      (deleted : (s'.cores k).deleted = (s.cores k).deleted)
      (call : ∀ rest, s.call = .tearing k rest → ∃ rest', s'.call = .tearing k rest')
      (back : ∀ rest', s'.call = .tearing k rest' → ∃ rest, s.call = .tearing k rest ∧ rest' ⊆ rest)
  | fresh (new : s.ncores ≤ k) (joined : (s'.cores k).joined = false)
  | joins (before : s.call = .stopping k)
      (after : s'.call = .tearing k (List.range (s.cores k).ndatasets))
  | destroys (joined : (s'.cores k).joined = (s.cores k).joined)
      (deleted : (s'.cores k).deleted = true) (after : s'.call = .idle)

/-- The step does nothing to the core, and is not one of its `finalize`. -/
theorem Flags.of_calls (before : ∀ rest, s.call ≠ .tearing k rest)
    (after : ∀ rest, s'.call ≠ .tearing k rest)
    (flags : (s'.cores k).joined = (s.cores k).joined ∧
      (s'.cores k).deleted = (s.cores k).deleted) : Flags s s' k :=
  .same flags.1 flags.2 (fun rest h => absurd h (before rest)) fun rest h => absurd h (after rest)

/-- Only the last part of `finalize` tears down. -/
theorem ApiCall.ne_tearing {call : ApiCall} (h : call.isFinal = false) (rest : List Nat) :
    call ≠ .tearing k rest := by
  rintro rfl
  cases h

/-- The same, of a step that is not one of any `finalize`. -/
theorem Flags.of_usual {call : ApiCall} (before : s.call = call) (usual : call.isFinal = false)
    (usual' : s'.call.isFinal = false)
    (flags : (s'.cores k).joined = (s.cores k).joined ∧
      (s'.cores k).deleted = (s.cores k).deleted) : Flags s s' k := by
  subst before
  exact .of_calls (ApiCall.ne_tearing usual) (ApiCall.ne_tearing usual') flags

/-- Looking a variable up sets no flag of a core. -/
theorem resolveVariable_flags {name : List UInt8} {known : Bool} {res : Option Nat}
    (h : s.resolveVariable k d name known = some (res, s')) (j : Nat) :
    (s'.cores j).joined = (s.cores j).joined ∧ (s'.cores j).deleted = (s.cores j).deleted := by
  unfold resolveVariable at h
  split at h
  · obtain ⟨-, rfl⟩ := Prod.mk.inj (Option.some.inj h)
    exact ⟨rfl, rfl⟩
  · simp only at h
    split at h
    · split at h
      · obtain ⟨-, rfl⟩ := Prod.mk.inj (Option.some.inj h)
        exact ⟨setCore_keeps CoreRecord.joined (by rfl) j,
          setCore_keeps CoreRecord.deleted (by rfl) j⟩
      · cases h
    · obtain ⟨-, rfl⟩ := Prod.mk.inj (Option.some.inj h)
      exact ⟨rfl, rfl⟩

/-- A record with the same flags. -/
theorem setCore_flags {x : CoreRecord} {j : Nat} (hjoined : x.joined = (s.cores k).joined)
    (hdeleted : x.deleted = (s.cores k).deleted) :
    ((s.setCore k x).cores j).joined = (s.cores j).joined ∧
      ((s.setCore k x).cores j).deleted = (s.cores j).deleted :=
  ⟨setCore_keeps CoreRecord.joined hjoined j, setCore_keeps CoreRecord.deleted hdeleted j⟩

/-- A step inside a core sets no flag of a core. -/
theorem ioStep_flags {iop : IoOp} {j : Nat} {s₁ : Process} (ran : s.ioStep j iop = some s₁) :
    (s₁.cores k).joined = (s.cores k).joined ∧ (s₁.cores k).deleted = (s.cores k).deleted := by
  rw [(ioStep_ran ran).cores]
  exact ⟨rfl, rfl⟩

/-- What a turn does to the flags of a core. -/
theorem Turn.flags (h : Turn s op s') (k : Nat) : Flags s s' k := by
  -- `joined` is set by `join` and `deleted` by `destroy`; every other turn keeps both
  cases h with
  | runs lt permitted ran =>
    obtain ⟨hjoined, hdeleted⟩ := ioStep_flags (k := k) ran
    have hcall := (ioStep_ran ran).call
    refine .same hjoined hdeleted (fun rest h => ⟨rest, hcall.trans h⟩) fun rest h => ?_
    exact ⟨rest, hcall.symm.trans h, List.Subset.refl _⟩
  | returns status close final =>
    refine .of_calls (fun rest h => ?_) (ApiCall.ne_tearing rfl) ⟨rfl, rfl⟩
    rw [h] at final
    cases final
  -- a new core has neither flag
  | inits idle =>
    by_cases hk : k = s.ncores
    · refine .fresh hk.ge ?_
      subst hk
      simp [init, ret, setCore]
    · exact .of_usual idle rfl rfl ⟨by rw [init_cores hk], by rw [init_cores hk]⟩
  | waits idle | closes idle => exact .of_usual idle rfl rfl ⟨rfl, rfl⟩
  | finalizes idle =>
    refine .of_calls (fun rest h => ?_) (fun rest h => ?_) ⟨rfl, rfl⟩
    · cases idle.symm.trans h
    · cases h
  | @opens token j mode idle =>
    exact .of_usual idle rfl rfl (s.setCore_flags (k := j) (j := k)
      (x := { s.cores j with ndatasets := (s.cores j).ndatasets + 1 }) rfl rfl)
  | writes idle found ran | flushes idle found ran | releases idle found alive ran =>
    have hflags := ioStep_flags (k := k) ran
    exact .of_usual idle rfl rfl hflags
  | resolves status idle found mode resolved =>
    exact .of_usual idle rfl rfl (resolveVariable_flags resolved k)
  | reads idle found mode resolved ran =>
    obtain ⟨hjoined, hdeleted⟩ := ioStep_flags (k := k) ran
    obtain ⟨hjoined', hdeleted'⟩ := resolveVariable_flags resolved k
    exact .of_usual idle rfl rfl ⟨hjoined.trans hjoined', hdeleted.trans hdeleted'⟩
  | @mints j d q c b s₁ before pc ran =>
    obtain ⟨hjoined, hdeleted⟩ := ioStep_flags (k := k) ran
    obtain ⟨hjoined', hdeleted'⟩ := s.setCore_flags (k := j) (j := k)
      (x := { s.cores j with nviews := (s.cores j).nviews + 1 }) rfl rfl
    exact .of_usual before rfl rfl ⟨hjoined.trans hjoined', hdeleted.trans hdeleted'⟩
  | cancels before mem ran =>
    have hflags := ioStep_flags (k := k) ran
    exact .of_usual before rfl rfl hflags
  | observes before | drains before | drained before | surfaces before | flushesDriver before
  | closesDriver before => exact .of_usual before rfl rfl ⟨rfl, rfl⟩
  -- of this core, or of another one
  | @joins j before =>
    by_cases hk : k = j
    · subst hk
      exact .joins before rfl
    · have hcores : (s.setCore j { s.cores j with joined := true }).cores k = s.cores k := by
        simp [setCore, hk]
      refine .of_calls (fun rest h => ?_) (fun rest h => hk ?_)
        ⟨congrArg CoreRecord.joined hcores, congrArg CoreRecord.deleted hcores⟩
      · cases before.symm.trans h
      · exact (ApiCall.tearing.inj h).1.symm
  | tears before mem =>
    refine .same rfl rfl (fun rest h => ?_) fun rest h => ?_
    · obtain ⟨rfl, -⟩ := ApiCall.tearing.inj (before.symm.trans h)
      exact ⟨_, rfl⟩
    · obtain ⟨rfl, rfl⟩ := ApiCall.tearing.inj h
      exact ⟨_, before, List.erase_subset⟩
  -- likewise
  | @destroys j before =>
    by_cases hk : k = j
    · subst hk
      exact .destroys (by simp [destroy, ret, setCore]) (by simp [destroy, ret, setCore]) rfl
    · have hcores : (s.destroy j).cores k = s.cores k := by simp [destroy, ret, setCore, hk]
      refine .of_calls (fun rest h => hk ?_) (ApiCall.ne_tearing rfl)
        ⟨congrArg CoreRecord.joined hcores, congrArg CoreRecord.deleted hcores⟩
      exact (ApiCall.tearing.inj (before.symm.trans h)).1.symm

/-- Every orderly step keeps what is known of a core on its way out. -/
theorem Ending.step (h : Ending s) (hok : s.orderly op = true) (hstep : s.step op = some s') :
    Ending s' := by
  have hturn := step_turns hstep
  refine ⟨fun k hfinal hhome d hd => ?_, fun k rest hcall => ?_, fun k hjoined => ?_⟩
  -- no dataset is open in a core that is on its way out
  · cases hturn with
    | runs lt permitted ran =>
      have hran := ioStep_ran ran
      rw [hran.call] at hfinal hhome
      rw [hran.cores] at hd
      exact (face_eq_dataset (hran.datasets k d)).2.2.2.trans (h.opened k hfinal hhome d hd)
    -- orderly: the host has closed all of them
    | finalizes idle found =>
      obtain rfl := Option.some.inj hhome
      simp only [orderly, found, List.all_eq_true, List.mem_range, Bool.not_eq_true'] at hok
      exact hok d hd
    | @joins j before =>
      obtain rfl := Option.some.inj hhome
      refine h.opened j (by rw [before]; rfl) (by rw [before]; rfl) d ?_
      simpa [setCore] using hd
    | @tears j e rest ok before mem =>
      obtain rfl := Option.some.inj hhome
      have hface := receive_face s j e (if ok then [.flush, .close] else [.flush]) j d
      exact (face_eq_dataset hface).2.2.2.trans
        (h.opened j (by rw [before]; rfl) (by rw [before]; rfl) d hd)
    | _ => cases hfinal
  · cases hturn with
    | runs lt permitted ran =>
      have hran := ioStep_ran ran
      rw [hran.call] at hcall
      rw [hran.cores]
      exact h.tearing k rest hcall
    -- the list of the teardown starts full and only shrinks
    | joins before =>
      obtain ⟨rfl, rfl⟩ := ApiCall.tearing.inj hcall
      exact ⟨by simp [setCore], List.nodup_range⟩
    | tears before mem =>
      obtain ⟨rfl, rfl⟩ := ApiCall.tearing.inj hcall
      obtain ⟨hjoined, hnodup⟩ := h.tearing _ _ before
      exact ⟨hjoined, hnodup.erase _⟩
    | _ => cases hcall
  -- once joined, a core is torn down or gone
  · cases hturn.flags k with
    | same joined deleted call back =>
      rw [joined] at hjoined
      rw [deleted]
      refine (h.joined k hjoined).imp id fun htearing => ?_
      obtain ⟨rest, hrest⟩ := htearing
      exact call rest hrest
    | fresh new joined =>
      rw [joined] at hjoined
      cases hjoined
    | joins before after => exact .inr ⟨_, after⟩
    | destroys joined deleted after => exact .inl deleted

/-! ### Orderly runs -/

/-- What is known in an orderly run. -/
structure LifeInv (s : Process) : Prop where
  registered : Registered s
  isolated : ∀ k, (s.io k).Isolated
  queued : Queued s
  unused : Unused s
  written : Written s
  closing : Closing s
  ending : Ending s

theorem LifeInv.of_reach (h : system.Reach (fun s op => s.orderly op = true) s) : LifeInv s := by
  refine h.invariant_of (J := fun s => Registered s ∧ ∀ k, (s.io k).Isolated)
    (fun s h => ⟨.of_reach h, isolated_of_reach h⟩) (fun s hinit hJ => ?_)
    fun s op s' _ hJ' hs hok hstep => ?_
  -- no call has been made, nothing is being closed or torn down
  · obtain ⟨-, -, hcores, hio, -, -, -, -, hcall, -⟩ := id hinit
    refine ⟨hJ.1, hJ.2, .initial hinit, .initial hinit, fun k c hc => ?_, fun k d rest hclose => ?_,
      ⟨fun k hfinal => ?_, fun k rest htearing => ?_, fun k hjoined => ?_⟩⟩
    · obtain ⟨a, n, bp, ids, -, -, -, hwrites, -⟩ := (hio k).1
      rw [hwrites] at hc
      exact absurd hc (Nat.not_lt_zero c)
    · rw [hcall] at hclose
      cases hclose
    · rw [hcall] at hfinal
      cases hfinal
    · rw [hcall] at htearing
      cases htearing
    · rw [hcores] at hjoined
      cases hjoined
  -- each part is kept on its own
  · exact ⟨hJ'.1, hJ'.2, hs.queued.step hs.registered hstep, hs.unused.step hs.queued hstep,
      hs.written.step hs.registered hs.queued hs.isolated hok hstep,
      hs.closing.step hs.registered hs.queued hstep, hs.ending.step hok hstep⟩

end Process

end Amio
