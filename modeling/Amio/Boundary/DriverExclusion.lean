import Amio.Boundary.DriverAccess

/-!
# Serialised driver calls

The only lock that a worker holds across a driver call belongs to a (dataset, variable) pair, so
calls for two variables of one dataset may overlap, and calls that take no ordering mutex may
overlap with anything.

A thread is *bound* for a driver from the step that commits it to a call — a worker takes the task
off its queue, `resolve_variable` misses the variable, `close_dataset` ends its wait — until its
last call has returned. When a thread becomes bound for a driver only while every other thread bound
for it takes the same ordering mutex, then at any time the threads bound for one driver are a single
thread, or workers with writes of one key (`Serial.apart`). Of the latter the pool has no two in
flight (`WorkerRun.Inv.in_flight_unique`).
-/

namespace Amio

/-- The driver has not returned to the callback. -/
def CallbackPc.beforeReturn : CallbackPc → Bool
  | .waiting | .entered | .inDriver => true
  | _ => false

/-- The host call is committed to a driver call or inside one. -/
def AccessPc.committed : AccessPc → Bool
  | .missed | .inDescribe | .drained | .surfaced _ | .inFlush _ | .flushed _ | .inClose _ => true
  | _ => false

/-! ### Bound threads -/

/-- The driver that a worker is bound for, and the ordering mutex it takes on its way. -/
def boundOf (calls : Nat → WriteCall) (pc : FetchPc) :
    Worker Closure → Option (Nat × Option DatasetVariableKey)
  -- a worker is bound from the dequeue until its callback has left the driver
  | .writing ⟨k, _, _, .write c⟩ .dequeued => some ((calls c).args.dataset, some k)
  | .writing ⟨k, _, _, .write c⟩ .locked =>
    if (calls c).cb.beforeReturn then some ((calls c).args.dataset, some k) else none
  -- a fetch takes no ordering mutex
  | .prefetching ⟨_, _, _, _, .prefetch d⟩ .dequeued =>
    if pc = .returned then none else some (d, none)
  | _ => none

namespace AccessRun

variable (s : AccessRun)

/-- The driver that a thread is bound for, and the ordering mutex it takes on its way. -/
def bound : Thread → Option (Nat × Option DatasetVariableKey)
  | .worker w => boundOf s.core.calls (s.fetches w) (s.core.workers.pool.worker w)
  | .host h => if (s.hosts h).pc.committed then some ((s.hosts h).dataset, none) else none

def threads : List Thread :=
  (List.range s.core.workers.pool.threadCount).map .worker ++ (List.range s.nhosts).map .host

/-- Every thread but `a` that is bound for the driver of `d` takes the ordering mutex `k`. -/
def leftAlone (a : Thread) (d : Nat) (k : Option DatasetVariableKey) : Bool :=
  s.threads.all fun b =>
    decide (b = a) ||
      match s.bound b with
      | some (d', k') => decide (d' = d → k' = k ∧ k.isSome = true)
      | none => true

/-- The step commits host call `h` to a driver call. -/
def commits (h : Nat) : AccessStep → Bool
  | .lookup =>
    match (s.hosts h).kind.varName with
    | some varName => !(s.sideOf h).knows varName
    | none => false
  | .poll timedOut => s.endsWait h timedOut
  | _ => false

/-- A thread that becomes bound for a driver is left alone. -/
def undisputed : AccessOp → Bool
  | .core (.worker (.turn w top)) =>
    match boundOf s.core.calls .entered
        ((s.core.workers.pool.tryExecuteOne w top).worker w) with
    | some (d, k) => s.leftAlone (.worker w) d k
    | none => true
  -- a host call is bound from the step that commits it
  | .host h op => !s.commits h op || s.leftAlone (.host h) (s.hosts h).dataset none
  | _ => true

end AccessRun

/-- What a bound worker is doing. -/
inductive BoundBy (calls : Nat → WriteCall) (pc : FetchPc) (d : Nat) :
    Option DatasetVariableKey → Worker Closure → Prop
  | dequeued {t : WriteTask Closure} {c : Nat} (hcb : t.callback = .write c)
      (hd : (calls c).args.dataset = d) : BoundBy calls pc d (some t.dvKey) (.writing t .dequeued)
  | locked {t : WriteTask Closure} {c : Nat} (hcb : t.callback = .write c)
      (hd : (calls c).args.dataset = d) (before : (calls c).cb.beforeReturn = true) :
      BoundBy calls pc d (some t.dvKey) (.writing t .locked)
  | fetching {t : PrefetchTask Closure} (hcb : t.callback = .prefetch d) (hpc : pc ≠ .returned) :
      BoundBy calls pc d none (.prefetching t .dequeued)

section Bound

variable {calls calls' : Nat → WriteCall} {pc pc' : FetchPc} {x : Worker Closure} {d : Nat}
  {k : Option DatasetVariableKey}

/-- What binds a thread to a dataset. -/
theorem boundOf_eq_some : boundOf calls pc x = some (d, k) ↔ BoundBy calls pc d k x := by
  constructor
  -- each branch of `boundOf` is one rule
  · intro h
    unfold boundOf at h
    split at h
    · next k n i c =>
      cases h
      exact .dequeued (t := ⟨k, n, i, .write c⟩) rfl rfl
    · next k n i c =>
      split at h
      · next hbefore =>
        cases h
        exact .locked (t := ⟨k, n, i, .write c⟩) rfl rfl hbefore
      · cases h
    · split at h
      · cases h
      · next hpc =>
        cases h
        exact .fetching rfl hpc
    · cases h
  · intro h
    cases h with
    | @dequeued t c hcb hd =>
      obtain ⟨k, n, i, cb⟩ := t
      obtain rfl : cb = .write c := hcb
      simp [boundOf, hd]
    | @locked t c hcb hd hbefore =>
      obtain ⟨k, n, i, cb⟩ := t
      obtain rfl : cb = .write c := hcb
      simp [boundOf, hd, hbefore]
    | @fetching t hcb hpc =>
      obtain ⟨ts, n, i, j, cb⟩ := t
      obtain rfl : cb = .prefetch d := hcb
      simp [boundOf, hpc]

/-- A worker that stands still stays at most as bound as it was when its call does. -/
theorem BoundBy.frame (h : BoundBy calls' pc d k x)
    (hcalls : ∀ t c ph, x = .writing t ph → ph = .dequeued ∨ ph = .locked → t.callback = .write c →
      (calls' c).args = (calls c).args ∧
        ((calls' c).cb.beforeReturn = true → (calls c).cb.beforeReturn = true)) :
    BoundBy calls pc d k x := by
  cases h with
  | @dequeued t c hcb hd =>
    obtain ⟨hargs, -⟩ := hcalls t c _ rfl (.inl rfl) hcb
    exact .dequeued hcb (hargs ▸ hd)
  | @locked t c hcb hd hbefore =>
    obtain ⟨hargs, hcb'⟩ := hcalls t c _ rfl (.inr rfl) hcb
    exact .locked hcb (hargs ▸ hd) (hcb' hbefore)
  | fetching hcb hpc => exact .fetching hcb hpc

/-- The position in a prefetch callback counts only as far as it is before the return. -/
theorem BoundBy.mono (h : BoundBy calls pc' d k x) (hpc : pc' ≠ .returned → pc ≠ .returned) :
    BoundBy calls pc d k x := by
  cases h with
  | dequeued hcb hd => exact .dequeued hcb hd
  | locked hcb hd hbefore => exact .locked hcb hd hbefore
  | fetching hcb hne => exact .fetching hcb (hpc hne)

end Bound

/-! ### Steps of the write path -/

namespace WriteRun

variable {s s' : WriteRun}

/-- A call keeps its arguments, and a driver that has returned to a callback stays returned. -/
theorem Step.settles {op : WriteOp} (hi : Inv s) (h : Step s op s') {c : Nat} (hc : c < s.ncalls) :
    (s'.calls c).args = (s.calls c).args ∧
      ((s'.calls c).cb.beforeReturn = true → (s.calls c).cb.beforeReturn = true) := by
  -- a step changes one call at most
  have hset : ∀ (e : Nat) (x : WriteCall), s'.calls = Function.update s.calls e x →
      x.args = (s.calls e).args →
      (x.cb.beforeReturn = true → (s.calls e).cb.beforeReturn = true) →
      (s'.calls c).args = (s.calls c).args ∧
        ((s'.calls c).cb.beforeReturn = true → (s.calls c).cb.beforeReturn = true) := by
    intro e x hcalls hargs hcb
    rw [hcalls]
    by_cases hce : c = e
    · subst hce
      rw [Function.update_self]
      exact ⟨hargs, hcb⟩
    · rw [Function.update_of_ne hce]
      exact ⟨rfl, id⟩
  cases h with
  | call args =>
    simp only [beginCall, setCall]
    rw [Function.update_of_ne (by omega)]
    exact ⟨rfl, id⟩
  | got | denied | copied | inserted | entered | submitted | counted | returned =>
    exact hset _ _ rfl rfl id
  | began run pc => exact hset _ _ rfl rfl fun _ => by rw [pc]; rfl
  | @answered w e ok run pc => exact hset _ _ rfl rfl fun _ => by rw [pc]; rfl
  | completed | failed | coded | marked | firstCode | gaveBack | subtracted =>
    exact hset _ _ rfl rfl (by simp [CallbackPc.beforeReturn])
  | locked hr before hcb =>
    exact hset _ _ rfl rfl fun _ => by rw [hi.waiting_of_dequeued before hcb]; rfl
  | _ => exact ⟨rfl, id⟩

/-- The task of worker `w` is bound for no other driver after a step in which `w` stands still. -/
theorem Step.bound_of_still {op : WriteOp} (hi : Inv s) (h : Step s op s') {w d : Nat}
    {k : Option DatasetVariableKey} {pc : FetchPc}
    (hw : s'.workers.pool.worker w = s.workers.pool.worker w)
    (hb : BoundBy s'.calls pc d k (s'.workers.pool.worker w)) :
    BoundBy s.calls pc d k (s.workers.pool.worker w) := by
  rw [hw] at hb
  refine hb.frame fun t c ph hx hph hcb => h.settles hi ?_
  have ht : t ∈ (s.workers.pool.worker w).outstanding := by
    rw [Worker.mem_outstanding, hx]
    rcases hph with rfl | rfl <;> simp
  exact hi.lt_of_past (hi.past_of_outstanding ht hcb)

/-- An access of worker `w` after `lock.unlock()` binds it for nothing new. -/
theorem Step.bound_of_advance {w d : Nat} {k : Option DatasetVariableKey} {pc pc' : FetchPc}
    (h : Step s (.worker (.advance w)) s')
    (hb : BoundBy s'.calls pc' d k (s'.workers.pool.worker w)) :
    BoundBy s.calls pc d k (s.workers.pool.worker w) := by
  cases h with
  | sectioned hr henter hadvance => exact absurd rfl (hadvance w)
  -- taking the lock leaves the worker bound as it was since it dequeued the task
  | @locked _ c t r hr before hcb =>
    obtain ⟨-, -, -, hadv⟩ := WorkerRun.advance_cases hr
    cases hadv with
    | locked u hw after completed =>
      obtain rfl : t = u := by rw [before] at hw; cases hw; rfl
      simp only [after, Function.update_self] at hb
      cases hb with
      | @locked _ e he hd hbefore =>
        obtain rfl := Closure.write.inj (hcb.symm.trans he)
        simp only [setCall, Function.update_self] at hd
        rw [before]
        exact .dequeued hcb hd
    | ran u hw => rw [before] at hw; cases hw
    | bumped u hw => rw [before] at hw; cases hw
    | other x hzero => simp [before, Worker.outstanding] at hzero
  | @advanced _ r hr before left =>
    obtain ⟨-, -, -, hadv⟩ := WorkerRun.advance_cases hr
    cases hadv with
    | locked t hw after completed =>
      simp only [after, Function.update_self] at hb
      cases hb with
      | locked hcb => exact absurd hcb (before t _ hw)
    -- the callback has returned, so the driver has
    | ran t hw after completed =>
      simp only [after, Function.update_self] at hb
      cases hb
    | bumped t hw after completed =>
      simp only [after, Function.update_self] at hb
      cases hb
    | other x hzero hx after completed =>
      have hne := WorkerRun.advance_ne_prefetching hr
      simp only [after, Function.update_self] at hb hne
      cases hb with
      | dequeued => simp [Worker.outstanding] at hx
      | locked => simp [Worker.outstanding] at hx
      | fetching => exact absurd rfl (hne _)

/-- A step of the write path in which no worker takes a task binds no worker. -/
theorem Step.bound_kept {op : WriteOp} (hi : Inv s) (h : Step s op s')
    (hturn : ∀ w top, op ≠ .worker (.turn w top)) {w d : Nat} {k : Option DatasetVariableKey}
    {pc pc' : FetchPc} (hpc : pc' = pc ∨ op = .worker (.advance w))
    (hb : BoundBy s'.calls pc' d k (s'.workers.pool.worker w)) :
    BoundBy s.calls pc d k (s.workers.pool.worker w) := by
  -- either the worker itself moves, or it stays where it is
  by_cases hop : op = .worker (.advance w)
  · subst hop
    exact h.bound_of_advance hb
  obtain rfl := hpc.resolve_right hop
  refine h.bound_of_still hi ?_ hb
  cases h with
  | entered hc pc hr => exact congrFun (WorkerRun.step_worker (by simp) (by simp) hr) w
  | sectioned hr henter hadvance =>
    refine congrFun (WorkerRun.step_worker (fun v top hop => ?_) hadvance hr) w
    subst hop
    exact hturn v top rfl
  | locked hr => exact WorkerRun.advance_worker_of_ne (by rintro rfl; exact hop rfl) hr
  | advanced hr => exact WorkerRun.advance_worker_of_ne (by rintro rfl; exact hop rfl) hr
  | _ => rfl

end WriteRun

/-! ### Steps of the other users -/

namespace AccessRun

variable {s s' : AccessRun}

/-- The effect of an access of host call `h`. -/
structure Moved (s s' : AccessRun) (h : Nat) (op : AccessStep) : Prop where
  fetches : s'.fetches = s.fetches
  nhosts : s'.nhosts = s.nhosts
  core : s'.core = s.core ∨
    ∃ task late, s.core.step (.worker (.submitPrefetch task late)) = some s'.core
  host : ∃ pc, s'.hosts = Function.update s.hosts h { s.hosts h with pc := pc } ∧
    (pc.committed = true → (s.hosts h).pc.committed = true ∨ s.commits h op = true)

/-- After the variable is resolved an access is not bound any more. -/
theorem onResolved_not_committed (kind : AccessKind) : kind.onResolved.committed = false := by
  cases kind <;> rfl

/-- What a step of a host thread does. -/
theorem hostStep_moved {h : Nat} {op : AccessStep} (hstep : s.hostStep h op = some s') :
    Moved s s' h op := by
  -- an access that leaves the core alone and takes the call to `pc`
  have hmove : ∀ (pc : AccessPc), s'.core = s.core → s'.fetches = s.fetches →
      s'.nhosts = s.nhosts → s'.hosts = Function.update s.hosts h { s.hosts h with pc := pc } →
      (pc.committed = true → (s.hosts h).pc.committed = true ∨ s.commits h op = true) →
      Moved s s' h op :=
    fun pc hcore hfetches hn hhosts hpc => ⟨hfetches, hn, .inl hcore, pc, hhosts, hpc⟩
  unfold hostStep at hstep
  simp only at hstep
  split at hstep
  · split at hstep
    · cases hstep
    · next varName hname =>
      split at hstep
      · cases hstep
      · split at hstep
        · obtain rfl := Option.some.inj hstep
          exact hmove _ rfl rfl rfl rfl (by simp [onResolved_not_committed])
        · next hmiss =>
          obtain rfl := Option.some.inj hstep
          refine hmove .missed rfl rfl rfl rfl fun _ => .inr ?_
          simp [commits, hname, hmiss]
  · next pc =>
    obtain rfl := Option.some.inj hstep
    exact hmove _ rfl rfl rfl rfl fun _ => .inl (by rw [pc]; rfl)
  · split at hstep
    · obtain rfl := Option.some.inj hstep
      exact hmove _ rfl rfl rfl rfl (by simp [onResolved_not_committed])
    · obtain rfl := Option.some.inj hstep
      exact hmove _ rfl rfl rfl rfl nofun
  -- `fetch` submits to the worker pool; a queued prefetch binds nobody yet
  · next timestep late pc =>
    obtain ⟨core, hcore, rfl⟩ := Option.map_eq_some_iff.mp hstep
    exact ⟨rfl, rfl, .inr ⟨_, late, hcore⟩, (s.hosts h).pc,
      (Function.update_eq_self h s.hosts).symm, .inl⟩
  · obtain rfl := Option.some.inj hstep
    exact hmove _ rfl rfl rfl rfl nofun
  · split at hstep
    · obtain rfl := Option.some.inj hstep
      refine hmove _ rfl rfl rfl rfl ?_
      split <;> nofun
    · cases hstep
  · simp only [Option.ite_none_right_eq_some, Option.some.injEq] at hstep
    obtain ⟨-, rfl⟩ := hstep
    exact hmove _ rfl rfl rfl rfl nofun
  · next timedOut pc =>
    obtain rfl := Option.some.inj hstep
    refine hmove _ rfl rfl rfl rfl ?_
    by_cases hends : s.endsWait h timedOut = true
    · exact fun _ => .inr hends
    · rw [if_neg hends]
      nofun
  · next pc =>
    obtain rfl := Option.some.inj hstep
    exact hmove _ rfl rfl rfl rfl fun _ => .inl (by rw [pc]; rfl)
  · next pc =>
    obtain rfl := Option.some.inj hstep
    exact hmove _ rfl rfl rfl rfl fun _ => .inl (by rw [pc]; rfl)
  · next pc =>
    obtain rfl := Option.some.inj hstep
    exact hmove _ rfl rfl rfl rfl fun _ => .inl (by rw [pc]; rfl)
  · next pc =>
    obtain rfl := Option.some.inj hstep
    exact hmove _ rfl rfl rfl rfl fun _ => .inl (by rw [pc]; rfl)
  · obtain rfl := Option.some.inj hstep
    exact hmove _ rfl rfl rfl rfl nofun
  · obtain rfl := Option.some.inj hstep
    exact hmove _ rfl rfl rfl rfl nofun
  · cases hstep

/-- What a step of the core does. -/
theorem coreStep_cases {op : WriteOp} (h : s.coreStep op = some s') :
    s.core.step op = some s'.core ∧ s'.hosts = s.hosts ∧ s'.nhosts = s.nhosts ∧
      ∀ w, s'.fetches w = s.fetches w ∨ op = .worker (.advance w) := by
  unfold coreStep at h
  split at h
  · simp only [Option.ite_none_left_eq_some, Option.map_eq_some_iff] at h
    obtain ⟨-, core, hcore, rfl⟩ := h
    exact ⟨hcore, rfl, rfl, fun _ => .inl rfl⟩
  · cases h
  · next w =>
    simp only [Option.ite_none_left_eq_some, Option.map_eq_some_iff] at h
    obtain ⟨-, core, hcore, rfl⟩ := h
    refine ⟨hcore, rfl, rfl, fun v => ?_⟩
    by_cases hv : v = w
    · exact .inr (by rw [hv])
    · exact .inl (Function.update_of_ne hv _ _)
  · obtain ⟨core, hcore, rfl⟩ := Option.map_eq_some_iff.mp h
    exact ⟨hcore, rfl, rfl, fun _ => .inl rfl⟩

/-- The driver is entered from the beginning of a prefetch callback only. -/
theorem callbackStep_cases {w : Nat} {skipped : Bool} (h : s.callbackStep w skipped = some s') :
    s'.core = s.core ∧ s'.hosts = s.hosts ∧ s'.nhosts = s.nhosts ∧
      ∀ v, s'.fetches v ≠ .returned → s.fetches v ≠ .returned := by
  unfold callbackStep at h
  split at h
  · next hfetch =>
    obtain rfl := Option.some.inj h
    refine ⟨rfl, rfl, rfl, fun v hv hret => hv ?_⟩
    by_cases hvw : v = w
    -- the fetch has been entered, so that it had not returned
    · subst hvw; rw [hfetch] at hret; cases hret
    · exact (Function.update_of_ne hvw _ _).trans hret
  · obtain rfl := Option.some.inj h
    refine ⟨rfl, rfl, rfl, fun v hv hret => hv ?_⟩
    by_cases hvw : v = w
    · subst hvw; exact Function.update_self _ _ _
    · exact (Function.update_of_ne hvw _ _).trans hret
  · cases h

/-- A step that is not one of the write path leaves it alone, or submits a prefetch to it. -/
theorem step_core {op : AccessOp} (h : s.step op = some s') :
    s'.core = s.core ∨ ∃ op', s.core.step op' = some s'.core := by
  cases op with
  | core op => exact .inr ⟨op, (coreStep_cases h).1⟩
  | callback w skipped => exact .inl (callbackStep_cases h).1
  | access d kind =>
    simp only [AccessRun.step, beginAccess, Option.ite_none_left_eq_some, Option.some.injEq] at h
    obtain ⟨-, rfl⟩ := h
    exact .inl rfl
  | host i op =>
    simp only [AccessRun.step, Option.ite_none_right_eq_some] at h
    exact (hostStep_moved h.2).core.imp_right fun ⟨task, late, hstep⟩ => ⟨_, hstep⟩
  | releaseView d =>
    simp only [AccessRun.step, Option.ite_none_right_eq_some, Option.some.injEq] at h
    obtain ⟨-, rfl⟩ := h
    exact .inl rfl

/-- **The write path of a run is a run of the write path**, so what holds of the latter holds
here. -/
theorem core_reachable (h : system.Reachable s) : WriteRun.system.Reachable s.core := by
  refine Lts.System.Reach.invariant (I := fun s => WriteRun.system.Reachable s.core) ?_
    (fun s _ s' hs _ hstep => ?_) h
  · rintro _ ⟨core, mode, hcore, rfl⟩
    exact .init hcore
  · rcases step_core hstep with hcore | ⟨op, hop⟩
    · rw [hcore]
      exact hs
    · exact .step hs trivial hop

/-! ### The invariant -/

/-- Two threads bound for one driver take the same ordering mutex on their way. -/
def Apart (s : AccessRun) : Prop :=
  ∀ a b d k k', a ≠ b → s.bound a = some (d, k) → s.bound b = some (d, k') →
    k' = k ∧ k.isSome = true

structure Serial (s : AccessRun) : Prop where
  fresh : ∀ h, s.nhosts ≤ h → (s.hosts h).pc.committed = false
  apart : Apart s

/-- A bound thread is one of the threads there are. -/
theorem Serial.mem_threads (hs : Serial s) (hi : s.core.Inv) {b : Thread}
    (hb : s.bound b ≠ none) : b ∈ s.threads := by
  cases b with
  | worker w =>
    have hne : s.core.workers.pool.worker w ≠ .idle := fun hidle =>
      hb (by simp [bound, hidle, boundOf])
    have hlt := hi.workers.lt_of_ne_idle hne
    simpa [threads] using hlt
  | host h =>
    have hlt : h < s.nhosts := by
      by_contra hle
      exact hb (by simp [bound, hs.fresh h (by omega)])
    simpa [threads] using hlt

/-- Only an access under the same key may be bound to the dataset already. -/
theorem Serial.of_leftAlone (hs : Serial s) (hi : s.core.Inv) {a b : Thread} {d : Nat}
    {k k' : Option DatasetVariableKey} (h : s.leftAlone a d k = true) (hne : b ≠ a)
    (hb : s.bound b = some (d, k')) : k' = k ∧ k.isSome = true := by
  have hall := List.all_eq_true.mp h b (hs.mem_threads hi (by simp [hb]))
  simpa [hb, hne] using hall

/-- A step of thread `a` that binds nobody else keeps threads apart when `a` is left alone. -/
theorem Serial.move (hs : Serial s) (hi : s.core.Inv) (a : Thread)
    (others : ∀ b d k, b ≠ a → s'.bound b = some (d, k) → s.bound b = some (d, k))
    (self : ∀ d k, s'.bound a = some (d, k) →
      s.bound a = some (d, k) ∨ s.leftAlone a d k = true) : Apart s' := by
  -- the pair is apart when `a` is the first of the two
  have hfirst : ∀ b d k k', b ≠ a → s'.bound a = some (d, k) → s'.bound b = some (d, k') →
      k' = k ∧ k.isSome = true := by
    intro b d k k' hne ha hb
    rcases self d k ha with ha | hleft
    · exact hs.apart a b d k k' hne.symm ha (others b d k' hne hb)
    · exact hs.of_leftAlone hi hleft hne (others b d k' hne hb)
  intro b c d k k' hne hb hc
  by_cases hba : b = a
  · subst hba
    exact hfirst c d k k' hne.symm hb hc
  by_cases hca : c = a
  · subst hca
    obtain ⟨rfl, hsome⟩ := hfirst b d k' k hba hc hb
    exact ⟨rfl, hsome⟩
  · exact hs.apart b c d k k' hne (others b d k hba hb) (others c d k' hca hc)

/-- A step that binds nothing new keeps the threads apart. -/
theorem Serial.keep (hs : Serial s)
    (hkeep : ∀ b d k, s'.bound b = some (d, k) → s.bound b = some (d, k)) : Apart s' :=
  fun a b d k k' hne ha hb => hs.apart a b d k k' hne (hkeep a d k ha) (hkeep b d k' hb)

theorem bound_host_congr {h : Nat} (hh : s'.hosts h = s.hosts h) :
    s'.bound (.host h) = s.bound (.host h) := by
  simp only [bound, hh]

/-! ### Every step -/

/-- A worker takes its turn. -/
theorem Serial.turn (hs : Serial s) (hi : s.core.Inv) {w top : Nat}
    (hok : s.undisputed (.core (.worker (.turn w top))) = true)
    (hstep : s.core.step (.worker (.turn w top)) = some s'.core) (hhosts : s'.hosts = s.hosts)
    (hfetches : s'.fetches = s.fetches) : Apart s' := by
  have hcases := WriteRun.step_cases hstep
  obtain ⟨r, hr, hcore⟩ := Option.map_eq_some_iff.mp hstep
  obtain ⟨hidle, rfl⟩ : s.core.workers.pool.worker w = .idle ∧ s.core.workers.turn w top = r := by
    cases WorkerRun.step_cases hr with
    | turns lt idle => exact ⟨idle, rfl⟩
  refine hs.move hi (.worker w) (fun b d k hne hb => ?_) (fun d k ha => .inr ?_)
  · cases b with
    | host h => rwa [bound_host_congr (congrFun hhosts h)] at hb
    | worker v =>
      obtain ⟨x, hx, -⟩ := WorkerRun.turn_worker top hidle
      have hstill : s'.core.workers.pool.worker v = s.core.workers.pool.worker v := by
        rw [← hcore, hx, Function.update_of_ne (by rintro rfl; exact hne rfl)]
      rw [bound, hfetches] at hb
      exact boundOf_eq_some.mpr (hcases.bound_of_still hi hstill (boundOf_eq_some.mp hb))
  -- the task is known only once it is taken, so the condition looks at the worker as
  -- `tryExecuteOne` leaves it
  · rw [bound, ← hcore] at ha
    simp only [WorkerRun.turn] at ha
    split at ha
    · simp [WorkerPool.setWorker, boundOf] at ha
    · have htaken : boundOf s.core.calls .entered
          ((s.core.workers.pool.tryExecuteOne w top).worker w) = some (d, k) :=
        boundOf_eq_some.mpr ((boundOf_eq_some.mp ha).mono (by simp))
      simpa only [undisputed, htaken] using hok

/-- A thread makes a host call. -/
theorem Serial.access (hs : Serial s) {d : Nat} {kind : AccessKind}
    (h : s.beginAccess d kind = some s') : Serial s' := by
  simp only [beginAccess, Option.ite_none_left_eq_some, Option.some.injEq] at h
  obtain ⟨-, rfl⟩ := h
  -- an access that has just begun is not committed
  have hnew : ∀ h, s.nhosts ≤ h → (Function.update s.hosts s.nhosts
      { dataset := d, kind := kind
        pc := if kind.check (s.sides d).mode = .ok then .checked
          else .returned (kind.check (s.sides d).mode) } h).pc.committed = false := by
    intro h hle
    by_cases hh : h = s.nhosts
    · subst hh
      rw [Function.update_self]
      dsimp only
      split <;> rfl
    · rw [Function.update_of_ne hh]
      exact hs.fresh h hle
  refine ⟨fun h hle => hnew h (by dsimp only at hle; omega), hs.keep fun b e k hb => ?_⟩
  cases b with
  | worker w => exact hb
  | host h =>
    by_cases hh : s.nhosts ≤ h
    · simp [bound, hnew h hh] at hb
    · rwa [bound_host_congr (Function.update_of_ne (by omega) _ _)] at hb

/-- A host call moves on. -/
theorem Serial.host (hs : Serial s) (hi : s.core.Inv) {h : Nat} {op : AccessStep}
    (hlt : h < s.nhosts) (hok : s.undisputed (.host h op) = true) (hm : Moved s s' h op) :
    Serial s' := by
  obtain ⟨pc, hhosts, hpc⟩ := hm.host
  have hworker : ∀ w d k,
      s'.bound (.worker w) = some (d, k) → s.bound (.worker w) = some (d, k) := by
    intro w d k
    simp only [bound, hm.fetches, boundOf_eq_some]
    rcases hm.core with hcore | ⟨task, late, hstep⟩
    · rw [hcore]
      exact id
    · exact (WriteRun.step_cases hstep).bound_kept hi (by simp) (.inl rfl)
  have hother : ∀ i, i ≠ h → s'.hosts i = s.hosts i := by
    intro i hi
    rw [hhosts, Function.update_of_ne hi]
  refine ⟨fun i hle => ?_, hs.move hi (.host h) (fun b d k hne hb => ?_) fun d k ha => ?_⟩
  · rw [hm.nhosts] at hle
    rw [hother i (by omega)]
    exact hs.fresh i hle
  · cases b with
    | worker w => exact hworker w d k hb
    | host i => rwa [bound_host_congr (hother i (by rintro rfl; exact hne rfl))] at hb
  · simp only [bound, hhosts, Function.update_self, Option.ite_none_right_eq_some,
      Option.some.injEq, Prod.mk.injEq] at ha
    obtain ⟨hcom, rfl, rfl⟩ := ha
    -- it was committed before, or commits now and is undisputed
    refine (hpc hcom).imp (fun hbefore => by simp [bound, hbefore]) fun hcommits => ?_
    simpa only [undisputed, hcommits, Bool.not_true, Bool.false_or] using hok

/-- **Every undisputed step keeps the invariant.** -/
theorem Serial.step (hs : Serial s) (hi : s.core.Inv) {op : AccessOp}
    (hok : s.undisputed op = true) (h : s.step op = some s') : Serial s' := by
  cases op with
  | core op =>
    obtain ⟨hstep, hhosts, hn, hfetches⟩ := coreStep_cases h
    refine ⟨by rw [hhosts, hn]; exact hs.fresh, ?_⟩
    -- of the steps of the write path only a turn takes a task off a queue
    by_cases hturn : ∃ w top, op = .worker (.turn w top)
    · obtain ⟨w, top, rfl⟩ := hturn
      exact hs.turn hi hok hstep hhosts (funext fun v => (hfetches v).resolve_right (by simp))
    · refine hs.keep fun b d k hb => ?_
      cases b with
      | host h => rwa [bound_host_congr (congrFun hhosts h)] at hb
      | worker w =>
        refine boundOf_eq_some.mpr ((WriteRun.step_cases hstep).bound_kept hi ?_ (hfetches w)
          (boundOf_eq_some.mp hb))
        exact fun v top hop => hturn ⟨v, top, hop⟩
  | callback w skipped =>
    obtain ⟨hcore, hhosts, hn, hfetches⟩ := callbackStep_cases h
    refine ⟨by rw [hhosts, hn]; exact hs.fresh, hs.keep fun b d k hb => ?_⟩
    cases b with
    | host h => rwa [bound_host_congr (congrFun hhosts h)] at hb
    | worker v =>
      rw [bound, hcore] at hb
      exact boundOf_eq_some.mpr ((boundOf_eq_some.mp hb).mono (hfetches v))
  | access d kind => exact hs.access h
  | host h op =>
    simp only [AccessRun.step, Option.ite_none_right_eq_some] at h
    exact hs.host hi h.1 hok (hostStep_moved h.2)
  | releaseView d =>
    simp only [AccessRun.step, Option.ite_none_right_eq_some, Option.some.injEq] at h
    obtain ⟨-, rfl⟩ := h
    exact ⟨hs.fresh, hs.keep fun b e k hb => by cases b <;> exact hb⟩

/-- The invariant of the write path, in every run. -/
theorem core_inv {ok : AccessRun → AccessOp → Prop} (h : system.Reach ok s) : s.core.Inv :=
  (WriteRun.Good.of_reach (core_reachable h.reachable)).toInv

/-- The accesses of a dataset are serial in every undisputed run. -/
theorem Serial.of_reach (h : system.Reach (fun s op => s.undisputed op = true) s) : Serial s := by
  refine Lts.System.Reach.invariant_of (fun _ => core_inv) ?_
    (fun _ _ _ hi _ hs hok hstep => hs.step hi hok hstep) h
  rintro _ ⟨core, mode, ⟨a, n, bp, ids, -, rfl⟩, rfl⟩ -
  refine ⟨fun _ _ => rfl, fun a b d k k' _ ha => ?_⟩
  cases a <;> cases ha

/-! ### Mutual exclusion -/

/-- A thread inside a driver is bound for it. -/
theorem bound_of_inside {a : Thread} {d : Nat} (h : s.inside a = some d) :
    ∃ k, s.bound a = some (d, k) := by
  cases a with
  | worker w =>
    unfold inside at h
    simp only at h
    split at h
    · next k n i c hw =>
      simp only [Option.ite_none_right_eq_some, Option.some.injEq] at h
      obtain ⟨hcb, rfl⟩ := h
      -- in the callback of a write, which holds the mutex of its key
      exact ⟨some k, by simp [bound, hw, boundOf, hcb, CallbackPc.beforeReturn]⟩
    · next hw =>
      simp only [Option.ite_none_right_eq_some, Option.some.injEq] at h
      obtain ⟨hpc, rfl⟩ := h
      -- in a fetch
      exact ⟨none, by simp [bound, hw, boundOf, hpc]⟩
    · cases h
  | host h' =>
    refine ⟨none, ?_⟩
    unfold inside at h
    simp only at h
    split at h
    case h_4 => cases h
    -- the three positions of a host call inside the driver
    all_goals
      next hpc =>
        obtain rfl := Option.some.inj h
        simp [bound, hpc, AccessPc.committed]

/-- A thread on its way to a driver with an ordering mutex has a write of that key in flight. -/
theorem outstanding_of_bound {a : Thread} {d : Nat} {k : DatasetVariableKey}
    (h : s.bound a = some (d, some k)) :
    ∃ w t, a = .worker w ∧ t ∈ (s.core.workers.pool.worker w).outstanding ∧ t.dvKey = k := by
  cases a with
  | host h' => simp [bound] at h
  | worker w =>
    have hb := boundOf_eq_some.mp h
    generalize hw : s.core.workers.pool.worker w = x at hb
    cases hb with
    | @dequeued t => exact ⟨w, t, rfl, Worker.mem_outstanding.mpr (.inl hw), rfl⟩
    | @locked t => exact ⟨w, t, rfl, Worker.mem_outstanding.mpr (.inr (.inl hw)), rfl⟩

/-- **Driver calls are serialised** in every run in which threads become bound for a driver
undisputed, for any number of workers, host calls and datasets. -/
theorem driver_exclusive (h : system.Reach (fun s op => s.undisputed op = true) s) :
    s.DriverExclusive := by
  have hs := Serial.of_reach h
  intro d a b ha hb
  obtain ⟨k, hka⟩ := bound_of_inside ha
  obtain ⟨k', hkb⟩ := bound_of_inside hb
  by_contra hne
  -- both are writes of one key, and the pool has no two of these in flight
  obtain ⟨rfl, hsome⟩ := hs.apart a b d k k' hne hka hkb
  obtain ⟨key, rfl⟩ := Option.isSome_iff_exists.mp hsome
  obtain ⟨w, t, rfl, ht, hk⟩ := outstanding_of_bound hka
  obtain ⟨w', t', rfl, ht', hk'⟩ := outstanding_of_bound hkb
  exact hne (congrArg Thread.worker
    ((core_inv h).workers.in_flight_unique ht ht' (hk.trans hk'.symm)))

/-! ### Runs -/

/-- A core with two workers whose datasets are all opened in one mode. -/
def pairCore (mode : Mode) : AccessRun := start (WriteRun.byteCore 2 {}) fun _ => mode

theorem pairCore_init (mode : Mode) : system.init (pairCore mode) :=
  ⟨_, _, WriteRun.byteCore_init 2 (by decide) {}, rfl⟩

/-- Two writes to dataset `0`, up to their return. -/
def writePairOps (first second : List UInt8) : List AccessOp :=
  (WriteRun.prepareOps 0 first 42 ++ WriteRun.submitOps 0 ++ WriteRun.prepareOps 1 second 43 ++
    WriteRun.submitOps 1).map .core

/-- Worker `w` takes the next task, which is a write, and calls the driver. -/
def driveOps (w : Nat) : List AccessOp :=
  [.core (.worker (.turn w 0)), .core (.worker (.advance w)), .core (.callback w true)]

/-- Two writes to one variable; the second worker finds the second one not next in line. -/
def sameVariableOps : List AccessOp :=
  writePairOps [118] [118] ++ driveOps 0 ++ [.core (.worker (.turn 1 0))]

theorem driver_exclusive_of_same_variable :
    ∃ s, system.replay (fun s op => s.undisputed op = true) (pairCore .write) sameVariableOps =
        some s ∧
      s.inside (.worker 0) = some 0 ∧ s.core.workers.pool.writeQueue.length = 1 ∧
      s.DriverExclusive :=
  ⟨_, rfl, rfl, rfl, driver_exclusive
    (Lts.System.Reach.of_replay sameVariableOps (.init (pairCore_init .write)) rfl)⟩

/-- Two writes to two variables, each with a worker. -/
def twoVariablesOps : List AccessOp := writePairOps [118] [119] ++ driveOps 0 ++ driveOps 1

/-- A variable is described while a worker reads another one. -/
def describeOps : List AccessOp :=
  [.access 0 (.read [118] 0), .host 0 .lookup, .host 0 .enter, .host 0 (.leave true),
    .host 0 (.fetch 0 false), .core (.worker (.turn 0 0)), .callback 0 false,
    .access 0 (.describe [119] false), .host 1 .lookup, .host 1 .enter]

/-- A dataset is closed while a write takes longer than 30 seconds. -/
def closeOps : List AccessOp :=
  writePairOps [118] [118] ++ driveOps 0 ++
    [.access 0 .closeDataset, .host 0 .checkViews, .host 0 .cancel, .host 0 (.poll true),
      .host 0 .surface, .host 0 .enter]

/-- Two threads are inside one driver: two workers with writes to two variables of a dataset, a
worker that prefetches and a thread that describes another variable, and a worker with a write and
the thread that closes the dataset. -/
theorem driver_calls_overlap :
    (∃ s, system.replay (fun _ _ => True) (pairCore .write) twoVariablesOps = some s ∧
      system.Reachable s ∧ s.inside (.worker 0) = some 0 ∧ s.inside (.worker 1) = some 0 ∧
      ¬ s.DriverExclusive) ∧
    (∃ s, system.replay (fun _ _ => True) (pairCore .read) describeOps = some s ∧
      system.Reachable s ∧ s.inside (.worker 0) = some 0 ∧ s.inside (.host 1) = some 0 ∧
      ¬ s.DriverExclusive) ∧
    ∃ s, system.replay (fun _ _ => True) (pairCore .write) closeOps = some s ∧
      system.Reachable s ∧ s.inside (.worker 0) = some 0 ∧ s.inside (.host 0) = some 0 ∧
      ¬ s.DriverExclusive :=
  ⟨⟨_, rfl, Lts.System.Reachable.of_replay twoVariablesOps (pairCore_init .write) rfl, rfl, rfl,
      fun h => by cases h 0 (.worker 0) (.worker 1) rfl rfl⟩,
    ⟨_, rfl, Lts.System.Reachable.of_replay describeOps (pairCore_init .read) rfl, rfl, rfl,
      fun h => by cases h 0 (.worker 0) (.host 1) rfl rfl⟩,
    ⟨_, rfl, Lts.System.Reachable.of_replay closeOps (pairCore_init .write) rfl, rfl, rfl,
      fun h => by cases h 0 (.worker 0) (.host 0) rfl rfl⟩⟩

end AccessRun

end Amio
