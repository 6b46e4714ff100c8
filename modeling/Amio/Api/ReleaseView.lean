import Amio.Lib.System
import Amio.Lib.Tally
import Amio.Boundary.HandleTable
import Amio.Staging.PoolInvariant

/-!
# Concurrent releases of one view

`amio_release_view` looks its handle up in `kind_dispatch` and then, in `release_view`, gives the
staging buffer back, takes the view off the count of its dataset, unbinds the handle and deletes the
record. The table, the pool and the counter are each safe by themselves, but what makes a second
call fail is the unbound handle, and that comes late: a call that looks the handle up before has the
record in its hands and repeats every step on it.

Any number of calls on one view handle run here, with every step of its own. `Shared.after` says
what one call has done to the shared state by the time it gets to each point. In every run in which
no call looks the handle up while another one is between its lookup and the unbinding (`alone`), one
call does all of this and the others are refused (`released_once`); two calls that overlap there
never end well (`overlap_fails`).
-/

namespace Amio

/-- Where a call of `amio_release_view` is, by what it does next. `faulted` is a call that has used
a record after its deletion, or has failed the assertion of `StagingPool::release` that there is a
reference left. -/
inductive ReleasePc
  | dispatching
  | releasing (v : Nat)
  | counting (v : Nat)
  | unbinding (v : Nat)
  | deleting (v : Nat)
  | returned (status : AmioErr)
  | faulted
  deriving DecidableEq

namespace ReleasePc

/-- The call has looked the handle up and not yet unbound it. -/
def inside : ReleasePc → Bool
  | .releasing _ | .counting _ | .unbinding _ => true
  | _ => false

/-- The call has found the handle bound. -/
def passed : ReleasePc → Bool
  | .dispatching => false
  | .returned status => decide (status = .ok)
  | _ => true

/-- The call does nothing more. -/
def ended : ReleasePc → Bool
  | .returned _ | .faulted => true
  | _ => false

/-- The number of steps a call has left, at most. -/
def left : ReleasePc → Nat
  | .dispatching => 5
  | .releasing _ => 4
  | .counting _ => 3
  | .unbinding _ => 2
  | .deleting _ => 1
  | .returned _ | .faulted => 0

end ReleasePc

namespace ReleaseRun

/-- The fields of `ViewRecord` that `release_view` reads. `core` and its pool are not null in a view
that `read` made. -/
structure ViewRecord where
  stagingBuf : Option Nat
  token : Token
  datasetId : UInt64
  deriving DecidableEq

/-- What the calls share: the handle table, whose payloads are the addresses of view records, the
staging pool, the records, which are `none` once deleted, and `outstanding_views` of the datasets in
the core's map. `deletes` counts the times that a record was deleted. -/
structure Shared where
  handles : HandleTable Nat
  pool : StagingPool
  records : Nat → Option ViewRecord
  deletes : Nat → Nat
  outstandingViews : UInt64 → Option Nat

namespace Shared

variable (m : Shared) (v : Nat) (r : ViewRecord)

/-- `staging_pool->release`, if there is a buffer. -/
def dropBuffer : Shared :=
  match r.stagingBuf with
  | some b => { m with pool := m.pool.release b }
  | none => m

/-- `outstanding_views.fetch_sub(1)`, if the dataset is found. -/
def uncount : Shared :=
  match m.outstandingViews r.datasetId with
  | some n =>
    { m with
      outstandingViews :=
        Function.update m.outstandingViews r.datasetId (some (u64 (n + (2 ^ 64 - 1)))) }
  | none => m

/-- `process_handle_table().release`; its status is not looked at. -/
def unbind : Shared := { m with handles := (m.handles.release r.token .view).2 }

/-- `delete view_rec`. -/
def free : Shared :=
  { m with
    records := Function.update m.records v none
    deletes := Function.update m.deletes v (m.deletes v + 1) }

/-- What one call makes of `m` until it is at `pc`. -/
def after : ReleasePc → Shared
  | .dispatching | .releasing _ => m
  | .counting _ => m.dropBuffer r
  | .unbinding _ => (m.dropBuffer r).uncount r
  | .deleting _ => ((m.dropBuffer r).uncount r).unbind r
  | .returned _ | .faulted => (((m.dropBuffer r).uncount r).unbind r).free v

end Shared

end ReleaseRun

/-- Calls of `amio_release_view` on the handle `view`. -/
structure ReleaseRun where
  view : Token
  shared : ReleaseRun.Shared
  ncalls : Nat
  pc : Nat → ReleasePc

inductive ReleaseOp
  | begin
  | step (c : Nat)

namespace ReleaseRun

variable (s : ReleaseRun)

/-- Call `c` goes to `pc`, leaving the shared state `m`. -/
def goto (c : Nat) (m : Shared) (pc : ReleasePc) : ReleaseRun :=
  { s with shared := m, pc := Function.update s.pc c pc }

/-- `kind_dispatch`, and the null check of `release_view`. -/
def dispatch : ReleasePc :=
  if s.view = 0 then .returned .nullHandle
  else
    match s.shared.handles.lookup s.view .view with
    | (.ok, some v) => .releasing v
    | (.ok, none) => .returned .invalidHandle
    | (status, _) => .returned status

/-- Call `c` works on record `v`, which has to be there. -/
def withRecord (c v : Nat) (body : ViewRecord → ReleaseRun) : ReleaseRun :=
  match s.shared.records v with
  | some r => body r
  | none => s.goto c s.shared .faulted

/-- The next step of call `c`. -/
def callStep (c : Nat) : Option ReleaseRun :=
  match s.pc c with
  | .dispatching => some (s.goto c s.shared s.dispatch)
  | .releasing v => some (s.withRecord c v fun r =>
      -- `assert(buf->ref_count > 0)`
      if ∃ b ∈ r.stagingBuf, (s.shared.pool.buf b).refCount = 0 then s.goto c s.shared .faulted
      else s.goto c (s.shared.dropBuffer r) (.counting v))
  | .counting v => some (s.withRecord c v fun r => s.goto c (s.shared.uncount r) (.unbinding v))
  | .unbinding v => some (s.withRecord c v fun r => s.goto c (s.shared.unbind r) (.deleting v))
  | .deleting v => some (s.withRecord c v fun _ => s.goto c (s.shared.free v) (.returned .ok))
  | .returned _ | .faulted => none

def beginCall : ReleaseRun :=
  { s with ncalls := s.ncalls + 1, pc := Function.update s.pc s.ncalls .dispatching }

def step : ReleaseOp → Option ReleaseRun
  | .begin => some s.beginCall
  | .step c => if c < s.ncalls then s.callStep c else none

/-- The runs from `s₀`. -/
def system (s₀ : ReleaseRun) : Lts.System ReleaseRun ReleaseOp where
  init s := s = s₀
  step := step

/-- Every call has come to its end. -/
def Ended : Prop := ∀ c, c < s.ncalls → (s.pc c).ended = true

instance : Decidable s.Ended := inferInstanceAs (Decidable (∀ c, c < s.ncalls → _))

/-- A call looks the handle up only while no call is between its lookup and the unbinding. -/
def alone : ReleaseOp → Bool
  | .begin => true
  | .step c =>
    decide (s.pc c ≠ .dispatching) || (List.range s.ncalls).all fun c' => !(s.pc c').inside

/-! ### The shared state -/

/-- `view` is the handle of a view that is in use: it is bound to record `v`, the record is there
and holds a reference on its buffer, and nobody is releasing it yet. -/
structure InUse (v : Nat) (r : ViewRecord) : Prop where
  bound : s.shared.handles.lookup s.view .view = (.ok, some v)
  record : s.shared.records v = some r
  token : r.token = s.view
  held : ∀ b ∈ r.stagingBuf, (s.shared.pool.buf b).refCount ≠ 0
  undeleted : s.shared.deletes v = 0
  quiet : s.ncalls = 0

variable {s} {s₀ s' : ReleaseRun} {m : Shared} {v c c' w : Nat} {r : ViewRecord} {pc : ReleasePc}

/-- The host's view has a token. -/
theorem InUse.view_ne (h : InUse s₀ v r) : s₀.view ≠ 0 := by
  intro hzero
  have hbound := h.bound
  rw [hzero, HandleTable.lookup, if_pos rfl] at hbound
  cases hbound

/-- An unbound handle is refused. -/
theorem lookup_release {t : HandleTable Nat} {token : Token} {kind : HandleKind}
    (hne : token ≠ 0) : (t.release token kind).2.lookup token kind = (.invalidHandle, none) := by
  unfold HandleTable.lookup
  rw [if_neg hne, if_neg]
  unfold HandleTable.release
  rw [if_neg hne]
  split
  -- the slot was live and is not any more
  · rintro ⟨-, hlive, -⟩
    simp only [Function.update_self] at hlive
    cases hlive
  · assumption

@[simp] theorem dropBuffer_handles : (m.dropBuffer r).handles = m.handles := by
  unfold Shared.dropBuffer
  split <;> rfl

@[simp] theorem dropBuffer_records : (m.dropBuffer r).records = m.records := by
  unfold Shared.dropBuffer
  split <;> rfl

@[simp] theorem dropBuffer_deletes : (m.dropBuffer r).deletes = m.deletes := by
  unfold Shared.dropBuffer
  split <;> rfl

@[simp] theorem dropBuffer_outstandingViews :
    (m.dropBuffer r).outstandingViews = m.outstandingViews := by
  unfold Shared.dropBuffer
  split <;> rfl

@[simp] theorem uncount_handles : (m.uncount r).handles = m.handles := by
  unfold Shared.uncount
  split <;> rfl

@[simp] theorem uncount_records : (m.uncount r).records = m.records := by
  unfold Shared.uncount
  split <;> rfl

@[simp] theorem uncount_deletes : (m.uncount r).deletes = m.deletes := by
  unfold Shared.uncount
  split <;> rfl

@[simp] theorem uncount_pool : (m.uncount r).pool = m.pool := by
  unfold Shared.uncount
  split <;> rfl

/-- The buffer has one reference less. -/
theorem dropBuffer_refCount {b : Nat} (hb : r.stagingBuf = some b)
    (hheld : (m.pool.buf b).refCount ≠ 0) :
    ((m.dropBuffer r).pool.buf b).refCount + 1 = (m.pool.buf b).refCount := by
  simp only [Shared.dropBuffer, hb, StagingPool.release_refCount_self]
  omega

/-- The dataset has one view less. -/
theorem uncount_outstandingViews : (m.uncount r).outstandingViews r.datasetId =
    (m.outstandingViews r.datasetId).map fun n => u64 (n + (2 ^ 64 - 1)) := by
  unfold Shared.uncount
  split
  · next n hn =>
    rw [hn]
    exact Function.update_self _ _ _
  · next hn => rw [hn, Option.map_none]

/-- The record stays until it is deleted. -/
theorem after_records (hpc : pc.ended = false) : (m.after v r pc).records = m.records := by
  cases pc with
  | dispatching | releasing | counting | unbinding | deleting => simp [Shared.after, Shared.unbind]
  | returned | faulted => cases hpc

/-- The handle stays bound until it is unbound. -/
theorem after_handles : (m.after v r pc).handles =
    if pc.inside = true ∨ pc = .dispatching then m.handles
    else (m.handles.release r.token .view).2 := by
  cases pc <;> simp [Shared.after, Shared.unbind, Shared.free, ReleasePc.inside]

/-! ### One call at a time -/

/-- A call that has found record `v`, at `pc`. -/
def Holds (v : Nat) : ReleasePc → Prop
  | .releasing v' | .counting v' | .unbinding v' | .deleting v' => v' = v
  | .returned status => status = .ok
  | .dispatching | .faulted => False

/-- **One call releases the view**: none has found the handle yet, or one has and the shared state
is its work so far; the others are still to look, or were refused because the handle is unbound. -/
inductive Serial (s₀ s : ReleaseRun) (v : Nat) (r : ViewRecord) : Prop
  | before (shared : s.shared = s₀.shared)
      (calls : ∀ c, c < s.ncalls → s.pc c = .dispatching)
  | during (w : Nat) (hw : w < s.ncalls) (holds : Holds v (s.pc w))
      (shared : s.shared = s₀.shared.after v r (s.pc w))
      (others : ∀ c, c < s.ncalls → c ≠ w → s.pc c = .dispatching ∨
        (s.pc c = .returned .invalidHandle ∧ (s.pc w).inside = false))

theorem goto_pc_of_ne (h : c' ≠ c) : (s.goto c m pc).pc c' = s.pc c' := Function.update_of_ne h _ _

@[simp] theorem goto_pc_self : (s.goto c m pc).pc c = pc := Function.update_self _ _ _

/-- **The next step of the call at work**, when the shared state is what it has made of it. -/
theorem callStep_next (hs₀ : InUse s₀ v r) (holds : Holds v (s.pc w))
    (shared : s.shared = s₀.shared.after v r (s.pc w)) (hended : (s.pc w).ended = false) :
    ∃ pc, s.callStep w = some (s.goto w (s₀.shared.after v r pc) pc) ∧ Holds v pc ∧
      pc.left + 1 = (s.pc w).left ∧ ((s.pc w).inside = false → pc.inside = false) := by
  -- the record is there for as long as the call runs
  have hrecord : s.shared.records v = some r := by
    rw [shared, after_records hended]
    exact hs₀.record
  cases hpc : s.pc w with
  | dispatching =>
    rw [hpc] at holds
    cases holds
  | releasing v' =>
    rw [hpc] at holds shared
    obtain rfl : v' = v := holds
    have hheld : ¬ ∃ b ∈ r.stagingBuf, (s.shared.pool.buf b).refCount = 0 := by
      rintro ⟨b, hb, hzero⟩
      rw [shared] at hzero
      exact hs₀.held b hb hzero
    refine ⟨.counting v', ?_, rfl, rfl, nofun⟩
    simp only [callStep, hpc, withRecord, hrecord, if_neg hheld]
    rw [shared]
    rfl
  | counting v' =>
    rw [hpc] at holds shared
    obtain rfl : v' = v := holds
    refine ⟨.unbinding v', ?_, rfl, rfl, nofun⟩
    simp only [callStep, hpc, withRecord, hrecord]
    rw [shared]
    rfl
  | unbinding v' =>
    rw [hpc] at holds shared
    obtain rfl : v' = v := holds
    refine ⟨.deleting v', ?_, rfl, rfl, nofun⟩
    simp only [callStep, hpc, withRecord, hrecord]
    rw [shared]
    rfl
  | deleting v' =>
    rw [hpc] at holds shared
    obtain rfl : v' = v := holds
    refine ⟨.returned .ok, ?_, rfl, rfl, fun _ => rfl⟩
    simp only [callStep, hpc, withRecord, hrecord]
    rw [shared]
    rfl
  | returned status | faulted =>
    rw [hpc] at hended
    cases hended

/-- The first call to look finds the handle. -/
theorem dispatch_bound (hs₀ : InUse s₀ v r) (hview : s.view = s₀.view)
    (hhandles : s.shared.handles = s₀.shared.handles) : s.dispatch = .releasing v := by
  unfold dispatch
  rw [hview, hhandles, if_neg hs₀.view_ne, hs₀.bound]

/-- A call that looks after the unbinding is refused. -/
theorem dispatch_unbound (hs₀ : InUse s₀ v r) (hview : s.view = s₀.view)
    (hhandles : s.shared.handles = (s₀.shared.handles.release s₀.view .view).2) :
    s.dispatch = .returned .invalidHandle := by
  unfold dispatch
  rw [hview, hhandles, if_neg hs₀.view_ne, lookup_release hs₀.view_ne]

/-- The earlier calls stay where they are. -/
theorem beginCall_pc_of_lt (h : c < s.ncalls) : s.beginCall.pc c = s.pc c :=
  Function.update_of_ne (Nat.ne_of_lt h) _ _

@[simp] theorem beginCall_pc_self : s.beginCall.pc s.ncalls = .dispatching :=
  Function.update_self _ _ _

/-- A call begins, and has done nothing yet. -/
theorem Serial.begin (h : Serial s₀ s v r) : Serial s₀ s.beginCall v r := by
  cases h with
  -- no call has moved yet, this one included
  | before shared calls =>
    refine .before shared fun c hc => ?_
    rcases Nat.lt_succ_iff_lt_or_eq.mp hc with hlt | rfl
    · exact (beginCall_pc_of_lt hlt).trans (calls c hlt)
    · exact beginCall_pc_self
  -- the one call that was first stays the one
  | during w hw holds shared others =>
    refine .during w (Nat.lt_succ_of_lt hw) ?_ ?_ fun c hc hne => ?_
    · rw [beginCall_pc_of_lt hw]; exact holds
    · rw [beginCall_pc_of_lt hw]; exact shared
    · rw [beginCall_pc_of_lt hw]
      rcases Nat.lt_succ_iff_lt_or_eq.mp hc with hlt | rfl
      · rw [beginCall_pc_of_lt hlt]
        exact others c hlt hne
      · exact .inl beginCall_pc_self

/-- The guard, for a call that is about to look. -/
theorem alone_iff (hpc : s.pc c = .dispatching) : s.alone (.step c) = true ↔
    ∀ c', c' < s.ncalls → (s.pc c').inside = false := by
  simp [alone, hpc]

/-- The one call that is under way takes a step. -/
theorem Serial.callStep (hs₀ : InUse s₀ v r) (hview : s.view = s₀.view) (h : Serial s₀ s v r)
    (hc : c < s.ncalls) (hguard : s.alone (.step c) = true) (hstep : s.callStep c = some s') :
    Serial s₀ s' v r := by
  cases h with
  | before shared calls =>
    -- the call that looks first is the one that will release the view
    have hpc := calls c hc
    have hfound : s.dispatch = .releasing v := dispatch_bound hs₀ hview (by rw [shared])
    simp only [ReleaseRun.callStep, hpc, hfound] at hstep
    obtain rfl := Option.some.inj hstep
    refine .during c hc ?_ ?_ fun c' hc' hne => .inl ?_
    · rw [goto_pc_self]; rfl
    · rw [goto_pc_self]; exact shared
    · rw [goto_pc_of_ne hne]; exact calls c' hc'
  | during w hw holds shared others =>
    by_cases hcw : c = w
    · subst hcw
      have hended : (s.pc c).ended = false := by
        cases hpc : s.pc c with
        | returned status | faulted =>
          simp only [ReleaseRun.callStep, hpc] at hstep
          cases hstep
        | dispatching | releasing | counting | unbinding | deleting => rfl
      obtain ⟨pc, hnext, hholds, -, hinside⟩ := callStep_next hs₀ holds shared hended
      rw [hnext] at hstep
      obtain rfl := Option.some.inj hstep
      refine .during c hw ?_ ?_ fun c' hc' hne => ?_
      · rw [goto_pc_self]; exact hholds
      · rw [goto_pc_self]; rfl
      · rw [goto_pc_of_ne hne, goto_pc_self]
        exact (others c' hc' hne).imp_right fun h => ⟨h.1, hinside h.2⟩
    · rcases others c hc hcw with hpc | ⟨hpc, -⟩
      -- the guard: the call at work has unbound the handle
      · have hinside := (alone_iff hpc).mp hguard w hw
        have hne : s.pc w ≠ .dispatching := by
          intro heq
          rw [heq] at holds
          cases holds
        have hrefused : s.dispatch = .returned .invalidHandle := by
          refine dispatch_unbound hs₀ hview ?_
          rw [shared, after_handles, if_neg (by simp [hinside, hne]), hs₀.token]
        simp only [ReleaseRun.callStep, hpc, hrefused] at hstep
        obtain rfl := Option.some.inj hstep
        have hwc : w ≠ c := fun heq => hcw heq.symm
        refine .during w hw ?_ ?_ fun c' hc' hne' => ?_
        · rw [goto_pc_of_ne hwc]; exact holds
        · rw [goto_pc_of_ne hwc]; exact shared
        · rw [goto_pc_of_ne hwc]
          by_cases hcc : c' = c
          · subst hcc
            exact .inr ⟨goto_pc_self, hinside⟩
          · rw [goto_pc_of_ne hcc]
            exact others c' hc' hne'
      · simp only [ReleaseRun.callStep, hpc] at hstep
        cases hstep

/-- A step moves its own call, and a call that has found the handle is never refused after that. -/
theorem callStep_goto (h : s.callStep c = some s') : ∃ m pc, s' = s.goto c m pc ∧
    ((s.pc c).passed = true → pc.passed = true) := by
  -- a call whose record is gone is at the fault, which is past the lookup
  have hwith : ∀ (v : Nat) (body : ViewRecord → ReleaseRun),
      (∀ r, ∃ m pc, body r = s.goto c m pc ∧ pc.passed = true) →
      ∃ m pc, s.withRecord c v body = s.goto c m pc ∧
        ((s.pc c).passed = true → pc.passed = true) := by
    intro v body hbody
    unfold withRecord
    split
    · next r _ =>
      obtain ⟨m, pc, heq, hpassed⟩ := hbody r
      exact ⟨m, pc, heq, fun _ => hpassed⟩
    · exact ⟨_, _, rfl, fun _ => rfl⟩
  unfold ReleaseRun.callStep at h
  split at h
  · next hpc =>
    refine ⟨_, _, (Option.some.inj h).symm, fun hpassed => ?_⟩
    -- the lookup itself is not past the lookup
    rw [hpc] at hpassed
    cases hpassed
  · obtain rfl := Option.some.inj h
    refine hwith _ _ fun r => ?_
    split <;> exact ⟨_, _, rfl, rfl⟩
  · obtain rfl := Option.some.inj h
    exact hwith _ _ fun r => ⟨_, _, rfl, rfl⟩
  · obtain rfl := Option.some.inj h
    exact hwith _ _ fun r => ⟨_, _, rfl, rfl⟩
  · obtain rfl := Option.some.inj h
    exact hwith _ _ fun r => ⟨_, _, rfl, rfl⟩
  · cases h
  · cases h

/-- Guarded runs release the view once. -/
theorem Serial.of_reach (hs₀ : InUse s₀ v r)
    (h : (system s₀).Reach (fun s op => s.alone op = true) s) :
    s.view = s₀.view ∧ Serial s₀ s v r := by
  refine h.invariant (I := fun s => s.view = s₀.view ∧ Serial s₀ s v r) ?_ ?_
  · rintro s rfl
    exact ⟨rfl, .before rfl fun c hc => absurd hc (by rw [hs₀.quiet]; exact Nat.not_lt_zero c)⟩
  · rintro s op s' ⟨hview, hserial⟩ hguard hstep
    cases op with
    | begin =>
      obtain rfl := Option.some.inj hstep
      exact ⟨hview, hserial.begin⟩
    | step c =>
      simp only [system, step] at hstep
      split at hstep
      · next hc =>
        have hserial' := hserial.callStep hs₀ hview hc hguard hstep
        obtain ⟨m, pc, rfl, -⟩ := callStep_goto hstep
        exact ⟨hview, hserial'⟩
      · cases hstep

/-! ### Released once -/

/-- **The view is released once**: one call has returned `AMIO_OK` and all others
`AMIO_ERR_INVALID_HANDLE`; the buffer has one reference less, the dataset one view less, and the
record was deleted once. -/
structure Released (s₀ s : ReleaseRun) (v : Nat) (r : ViewRecord) : Prop where
  calls : ∃ w, w < s.ncalls ∧ s.pc w = .returned .ok ∧
    ∀ c, c < s.ncalls → c ≠ w → s.pc c = .returned .invalidHandle
  buffer : ∀ b, r.stagingBuf = some b →
    (s.shared.pool.buf b).refCount + 1 = (s₀.shared.pool.buf b).refCount
  views : s.shared.outstandingViews r.datasetId =
    (s₀.shared.outstandingViews r.datasetId).map fun n => u64 (n + (2 ^ 64 - 1))
  record : s.shared.records v = none ∧ s.shared.deletes v = 1

/-- Nothing has been done twice so far, and nobody has been told otherwise. -/
structure NotTwice (s₀ s : ReleaseRun) (v : Nat) (r : ViewRecord) : Prop where
  faults : ∀ c, c < s.ncalls → s.pc c ≠ .faulted
  statuses : ∀ c status, c < s.ncalls → s.pc c = .returned status →
    status = .ok ∨ status = .invalidHandle
  calls : ∀ c c', c < s.ncalls → c' < s.ncalls → s.pc c = .returned .ok →
    s.pc c' = .returned .ok → c = c'
  buffer : ∀ b, r.stagingBuf = some b →
    (s.shared.pool.buf b).refCount = (s₀.shared.pool.buf b).refCount ∨
      (s.shared.pool.buf b).refCount + 1 = (s₀.shared.pool.buf b).refCount
  views : s.shared.outstandingViews r.datasetId = s₀.shared.outstandingViews r.datasetId ∨
    s.shared.outstandingViews r.datasetId =
      (s₀.shared.outstandingViews r.datasetId).map fun n => u64 (n + (2 ^ 64 - 1))
  record : s.shared.deletes v ≤ 1

/-- The buffer goes back to the pool in one access, or not. -/
theorem after_pool : (m.after v r pc).pool = m.pool ∨
    (m.after v r pc).pool = (m.dropBuffer r).pool := by
  cases pc with
  | dispatching | releasing => exact .inl rfl
  | counting => exact .inr rfl
  | unbinding | deleting | returned | faulted =>
    exact .inr (by simp [Shared.after, Shared.unbind, Shared.free])

/-- The counter goes down in one access, or not. -/
theorem after_outstandingViews : (m.after v r pc).outstandingViews = m.outstandingViews ∨
    (m.after v r pc).outstandingViews = ((m.dropBuffer r).uncount r).outstandingViews := by
  cases pc with
  | dispatching | releasing => exact .inl rfl
  | counting => exact .inl (by simp [Shared.after])
  | unbinding | deleting | returned | faulted => exact .inr rfl

/-- The record is deleted at the end. -/
theorem after_deletes : (m.after v r pc).deletes v =
    if pc.ended = true then m.deletes v + 1 else m.deletes v := by
  cases pc <;> simp [Shared.after, Shared.unbind, Shared.free, ReleasePc.ended]

/-- What the one call does, it does once. -/
theorem Serial.notTwice (hs₀ : InUse s₀ v r) (h : Serial s₀ s v r) : NotTwice s₀ s v r := by
  cases h with
  | before shared calls =>
    refine ⟨fun c hc => ?_, fun c status hc hpc => ?_, fun c c' hc _ hpc _ => ?_, ?_, ?_, ?_⟩
    · rw [calls c hc]
      exact nofun
    · rw [calls c hc] at hpc
      cases hpc
    · rw [calls c hc] at hpc
      cases hpc
    · rw [shared]
      exact fun _ _ => .inl rfl
    · rw [shared]
      exact .inl rfl
    · rw [shared, hs₀.undeleted]
      exact Nat.zero_le 1
  | during w hw holds shared others =>
    -- a call that has returned is the one at work, or was refused
    have hreturned : ∀ c status, c < s.ncalls → s.pc c = .returned status →
        (c = w ∧ status = .ok) ∨ status = .invalidHandle := by
      intro c status hc hpc
      by_cases hcw : c = w
      · subst hcw
        rw [hpc] at holds
        exact .inl ⟨rfl, holds⟩
      · rcases others c hc hcw with hother | ⟨hother, -⟩
        · cases hpc.symm.trans hother
        · exact .inr (ReleasePc.returned.inj (hpc.symm.trans hother))
    refine ⟨fun c hc => ?_, fun c status hc hpc => (hreturned c status hc hpc).imp_left And.right,
      fun c c' hc hc' hpc hpc' => ?_, fun b hb => ?_, ?_, ?_⟩
    · intro hpc
      by_cases hcw : c = w
      · subst hcw
        rw [hpc] at holds
        cases holds
      · rcases others c hc hcw with hother | ⟨hother, -⟩ <;> cases hpc.symm.trans hother
    · obtain ⟨rfl, -⟩ := (hreturned c .ok hc hpc).resolve_right nofun
      obtain ⟨rfl, -⟩ := (hreturned c' .ok hc' hpc').resolve_right nofun
      rfl
    · rw [shared]
      rcases after_pool with hpool | hpool
      · exact .inl (by rw [hpool])
      · exact .inr (by rw [hpool]; exact dropBuffer_refCount hb (hs₀.held b hb))
    · rw [shared]
      rcases after_outstandingViews with hviews | hviews
      · exact .inl (by rw [hviews])
      · right
        rw [hviews, uncount_outstandingViews, dropBuffer_outstandingViews]
    · rw [shared, after_deletes, hs₀.undeleted]
      split <;> decide

/-- When calls were made and all have ended, the view is released. -/
theorem Serial.released (hs₀ : InUse s₀ v r) (h : Serial s₀ s v r) (hcalls : 0 < s.ncalls)
    (hended : s.Ended) : Released s₀ s v r := by
  cases h with
  | before shared calls =>
    -- a call has been made, so that one is under way or through
    have hfirst := hended 0 hcalls
    rw [calls 0 hcalls] at hfirst
    cases hfirst
  | during w hw holds shared others =>
    -- it has not faulted, and nothing but a return ends it
    obtain ⟨status, hpc⟩ : ∃ status, s.pc w = .returned status := by
      have hw' := hended w hw
      cases hpc : s.pc w with
      | returned status => exact ⟨status, rfl⟩
      | faulted =>
        rw [hpc] at holds
        cases holds
      | dispatching | releasing | counting | unbinding | deleting =>
        rw [hpc] at hw'
        cases hw'
    rw [hpc] at holds shared
    obtain rfl : status = .ok := holds
    refine ⟨⟨w, hw, hpc, fun c hc hne => ?_⟩, fun b hb => ?_, ?_, ?_, ?_⟩
    -- the others have found no handle
    · rcases others c hc hne with hother | ⟨hother, -⟩
      · have hc' := hended c hc
        rw [hother] at hc'
        cases hc'
      · exact hother
    · rw [shared]
      simp only [Shared.after, Shared.free, Shared.unbind, uncount_pool]
      exact dropBuffer_refCount hb (hs₀.held b hb)
    · rw [shared]
      simp only [Shared.after, Shared.free, Shared.unbind, uncount_outstandingViews,
        dropBuffer_outstandingViews]
    · rw [shared]
      exact Function.update_self _ _ _
    · rw [shared, after_deletes, hs₀.undeleted]
      rfl

/-- The number of steps that are left, at most. -/
def stepsLeft (s : ReleaseRun) : Nat := Lts.tally ReleasePc.left s.pc s.ncalls

/-- A call that moves on has fewer steps left. -/
theorem stepsLeft_goto (m : Shared) (hc : c < s.ncalls) (hlt : pc.left < (s.pc c).left) :
    (s.goto c m pc).stepsLeft < s.stepsLeft := by
  have hsum := Lts.tally_update (g := ReleasePc.left) (f := s.pc) (b := pc) hc
  unfold stepsLeft goto
  simp only
  omega

/-- While a call has not come to its end, some call can go on. -/
theorem Serial.progress (hs₀ : InUse s₀ v r) (hview : s.view = s₀.view) (h : Serial s₀ s v r)
    (hended : ¬ s.Ended) : ∃ c s', s.alone (.step c) = true ∧ s.step (.step c) = some s' ∧
      s'.stepsLeft < s.stepsLeft := by
  obtain ⟨c, hc, hrunning⟩ : ∃ c, c < s.ncalls ∧ (s.pc c).ended = false := by
    simpa [Ended] using hended
  -- a call that looks
  have hlook : ∀ pc, s.pc c = .dispatching → s.dispatch = pc → pc.left < 5 →
      (∀ c', c' < s.ncalls → (s.pc c').inside = false) →
      ∃ c s', s.alone (.step c) = true ∧ s.step (.step c) = some s' ∧
        s'.stepsLeft < s.stepsLeft := by
    intro pc hpc hdispatch hlt hfree
    refine ⟨c, s.goto c s.shared pc, (alone_iff hpc).mpr hfree, ?_, stepsLeft_goto _ hc ?_⟩
    · simp only [step, if_pos hc, ReleaseRun.callStep, hpc, hdispatch]
    · rw [hpc]
      exact hlt
  cases h with
  | before shared calls =>
    refine hlook _ (calls c hc) (dispatch_bound hs₀ hview (by rw [shared])) (Nat.lt_succ_self 4) ?_
    intro c' hc'
    rw [calls c' hc']
    rfl
  | during w hw holds shared others =>
    have hne : s.pc w ≠ .dispatching := by
      intro heq
      rw [heq] at holds
      cases holds
    cases hwended : (s.pc w).ended with
    | false =>
      obtain ⟨pc, hnext, -, hleft, -⟩ := callStep_next hs₀ holds shared hwended
      refine ⟨w, _, by simp [alone, hne], (if_pos hw).trans hnext, stepsLeft_goto _ hw ?_⟩
      omega
    | true =>
      -- the call at work has returned, so the handle is unbound
      have hinside : (s.pc w).inside = false := by
        cases hpc : s.pc w <;> rw [hpc] at hwended <;> first | rfl | cases hwended
      have hcw : c ≠ w := by
        rintro rfl
        rw [hwended] at hrunning
        cases hrunning
      have hpc : s.pc c = .dispatching := by
        rcases others c hc hcw with hpc | ⟨hpc, -⟩
        · exact hpc
        · rw [hpc] at hrunning
          cases hrunning
      refine hlook _ hpc (dispatch_unbound hs₀ hview ?_) (by decide) fun c' hc' => ?_
      · rw [shared, after_handles, if_neg (by simp [hinside, hne]), hs₀.token]
      · by_cases hcw' : c' = w
        · rw [hcw']
          exact hinside
        · rcases others c' hc' hcw' with hpc' | ⟨hpc', -⟩ <;> (rw [hpc']; rfl)

/-- **A view that is in use is released once**, in every run in which no call looks the handle up
while another one is between its lookup and the unbinding: nothing is ever done twice, the calls
come to their end, and then one of them has released the view and the others were refused. -/
theorem released_once (hs₀ : InUse s₀ v r)
    (h : (system s₀).Reach (fun s op => s.alone op = true) s) :
    NotTwice s₀ s v r ∧ (0 < s.ncalls → s.Ended → Released s₀ s v r) ∧
      (¬ s.Ended → ∃ c s', s.alone (.step c) = true ∧ s.step (.step c) = some s' ∧
        s'.stepsLeft < s.stepsLeft) := by
  obtain ⟨hview, hserial⟩ := Serial.of_reach hs₀ h
  exact ⟨hserial.notTwice hs₀, hserial.released hs₀, hserial.progress hs₀ hview⟩

/-! ### Overlapping calls -/

/-- A call that has found the handle has found it for good. -/
theorem passed_of_after {a : ReleaseRun} (h : (system s₀).After a s) (hc : c < a.ncalls)
    (hpassed : (a.pc c).passed = true) : c < s.ncalls ∧ (s.pc c).passed = true := by
  refine h.stable (J := fun _ => True) (Q := fun s => c < s.ncalls ∧ (s.pc c).passed = true)
    (fun _ _ _ _ _ => trivial) ?_ trivial ⟨hc, hpassed⟩
  rintro s op s' - ⟨hlt, hp⟩ hstep
  cases op with
  | begin =>
    obtain rfl := Option.some.inj hstep
    exact ⟨Nat.lt_succ_of_lt hlt, by rw [beginCall_pc_of_lt hlt]; exact hp⟩
  | step c' =>
    simp only [system, step] at hstep
    split at hstep
    · obtain ⟨m, pc, rfl, hkeep⟩ := callStep_goto hstep
      refine ⟨hlt, ?_⟩
      -- a call that moves on does not come back
      by_cases hcc : c = c'
      · subst hcc
        rw [goto_pc_self]
        exact hkeep hp
      · rw [goto_pc_of_ne hcc]
        exact hp
    · cases hstep

/-- **The condition cannot be dropped**: once a call has found the handle while another one was
between its lookup and the unbinding, no continuation releases the view once. -/
theorem overlap_fails {v' : Nat} (hc : c < s.ncalls) (hc' : c' < s.ncalls)
    (hpc : s.pc c = .dispatching) (hfound : s.dispatch = .releasing v')
    (hinside : (s.pc c').inside = true)
    (h : (system s₀).After (s.goto c s.shared s.dispatch) s') : ¬ Released s₀ s' v r := by
  have hne : c' ≠ c := by
    rintro rfl
    rw [hpc] at hinside
    cases hinside
  obtain ⟨hlt, hp⟩ := passed_of_after h hc (by rw [goto_pc_self, hfound]; rfl)
  obtain ⟨hlt', hp'⟩ := passed_of_after h hc' (by
    rw [goto_pc_of_ne hne]
    cases hq : s.pc c' <;> rw [hq] at hinside <;> first | rfl | cases hinside)
  intro hreleased
  obtain ⟨w, -, -, hothers⟩ := hreleased.calls
  -- one of the two is not the call that released the view, and it was not refused either
  by_cases hcw : c = w
  · rw [hothers c' hlt' fun h => hne (h.trans hcw.symm)] at hp'
    cases hp'
  · rw [hothers c hlt hcw] at hp
    cases hp

/-- A view of one buffer of a pool of two, of a dataset with no other view. -/
def oneView : ReleaseRun where
  view := pack 0 1
  shared :=
    { handles := (HandleTable.empty.insert .view (some 0)).2
      pool := ((StagingPool.create PoolRun.pairArgs).acquireOnce 8 true).2
      records := fun v => if v = 0 then some ⟨some 0, pack 0 1, 1⟩ else none
      deletes := fun _ => 0
      outstandingViews := fun id => if id = 1 then some 1 else none }
  ncalls := 0
  pc := fun _ => .dispatching

theorem oneView_inUse : InUse oneView 0 ⟨some 0, pack 0 1, 1⟩ where
  bound := rfl
  record := rfl
  token := rfl
  held := by rintro b ⟨⟩; decide
  undeleted := rfl
  quiet := rfl

/-- Two calls, the second of which looks after the first has unbound the handle. -/
def serialOps : List ReleaseOp :=
  [.begin, .begin, .step 0, .step 0, .step 0, .step 0, .step 1, .step 0]

theorem released_once_of_serial :
    ∃ s, (system oneView).replay (fun s op => s.alone op = true) oneView serialOps = some s ∧
      s.pc 0 = .returned .ok ∧ s.pc 1 = .returned .invalidHandle ∧
      Released oneView s 0 ⟨some 0, pack 0 1, 1⟩ := by
  refine ⟨_, rfl, rfl, rfl, ?_⟩
  obtain ⟨-, hreleased, -⟩ := released_once oneView_inUse
    (Lts.System.Reach.of_replay serialOps (.init rfl) rfl)
  exact hreleased (by decide) (by decide)

/-- Two calls that both find the handle: the first runs to its end, and the second then works on a
record that is gone. -/
def overlapOps : List ReleaseOp :=
  [.begin, .begin, .step 0, .step 1, .step 0, .step 0, .step 0, .step 0, .step 1]

theorem overlap_not_released :
    ∃ s, (system oneView).replay (fun _ _ => True) oneView overlapOps = some s ∧
      (system oneView).Reachable s ∧ s.Ended ∧ s.pc 0 = .returned .ok ∧ s.pc 1 = .faulted ∧
      ¬ Released oneView s 0 ⟨some 0, pack 0 1, 1⟩ := by
  refine ⟨_, rfl, Lts.System.Reachable.of_replay overlapOps rfl rfl, by decide, rfl, rfl, ?_⟩
  intro h
  obtain ⟨w, -, hw, hothers⟩ := h.calls
  have hsecond : w = 1 := by
    by_contra hne
    cases hothers 1 (by decide) (Ne.symm hne)
  rw [hsecond] at hw
  cases hw

end ReleaseRun

end Amio
