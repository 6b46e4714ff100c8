import Amio.Prefetch.Selection
import Amio.Prefetch.Books

/-!
# Who holds the buffers of the prefetch queue

A buffer that a fetch has acquired is the fetch's until it is marked, then the queue's under its
timestep, then the caller's. `Claims` reads off the state who has a buffer; `Custody` says that
these are exactly the owners the pool knows of, so that a buffer that nobody claims is on the free
list. It holds in every run.
-/

namespace Amio

/-- A fetch that will do nothing more: it has run to its end, or was refused or left by an
exception. -/
def FetchPhase.ended : FetchPhase → Bool
  | .finished | .lost => true
  | _ => false

/-- A fetch that has ended has no buffer. -/
theorem FetchPhase.buffer_of_ended {phase : FetchPhase} (h : phase.ended = true) :
    phase.buffer = none := by
  cases phase <;> first | rfl | cases h

/-! ### The sections of `get_buffer` -/

/-- The buffer that a section has handed out. -/
def Verdict.handed : Verdict → Option Nat
  | .ret _ out => out
  | _ => none

/-- The buffer that a call has returned. -/
def ReadPc.handed : ReadPc → Option Nat
  | .returned _ out => out
  | _ => none

namespace Stage

variable {s s' s'' : Stage} {c i : Nat} {t : Int} {bbox : Option Bbox} {handed : Option Nat}

/-- What a section of call `c` does to the buffer staged for `t`: nothing, or the caller takes it,
or it goes back to the pool. -/
inductive Took (s s' : Stage) (c : Nat) (t : Int) : Option Nat → Prop
  | nothing (pool : s'.pool = s.pool) (owner : s'.owner = s.owner)
      (completed : s'.queue.completed = s.queue.completed) : Took s s' c t none
  | taken {i : Nat} (staged : s.queue.completed.lookup t = some i) (pool : s'.pool = s.pool)
      (owner : s'.owner = Function.update s.owner i (some (.caller c)))
      (completed : s'.queue.completed = s.queue.completed.erase t) : Took s s' c t (some i)
  | dropped {i : Nat} (staged : s.queue.completed.lookup t = some i)
      (pool : s'.pool = s.pool.release i) (owner : s'.owner = Function.update s.owner i none)
      (completed : s'.queue.completed = s.queue.completed.erase t) : Took s s' c t none

theorem Took.refl (s : Stage) (c : Nat) (t : Int) : Took s s c t none := .nothing rfl rfl rfl

/-- A section that goes on after it has handed out nothing. -/
theorem Took.trans (h : Took s s' c t none) (h' : Took s' s'' c t handed) :
    Took s s'' c t handed := by
  cases h with
  | nothing hp ho hc =>
    cases h' with
    | nothing hp' ho' hc' => exact .nothing (hp'.trans hp) (ho'.trans ho) (hc'.trans hc)
    | taken hi hp' ho' hc' =>
      rw [hc] at hi hc'
      exact .taken hi (hp'.trans hp) (by rw [ho', ho]) hc'
    | dropped hi hp' ho' hc' =>
      rw [hc] at hi hc'
      exact .dropped hi (by rw [hp', hp]) (by rw [ho', ho]) hc'
  | dropped hi hp ho hc =>
    -- the entry is gone, so there is nothing left to take
    have hgone : s'.queue.completed.lookup t = none := by rw [hc]; exact AList.lookup_erase t _
    cases h' with
    | nothing hp' ho' hc' => exact .dropped hi (hp'.trans hp) (ho'.trans ho) (hc'.trans hc)
    | taken hi' => rw [hgone] at hi'; cases hi'
    | dropped hi' => rw [hgone] at hi'; cases hi'

/-- An error is taken first. -/
theorem Took.takeFailed {otherwise : Verdict × Stage}
    (h : Took s otherwise.2 c t otherwise.1.handed) :
    Took s (s.takeFailed t otherwise).2 c t (s.takeFailed t otherwise).1.handed := by
  unfold Stage.takeFailed
  split
  · exact .nothing rfl rfl rfl
  · exact h

/-- A staged buffer is taken, or it is stale and dropped. -/
theorem Took.takeCompleted {stale : Stage → Verdict × Stage} {absent : Verdict × Stage}
    (hstale : ∀ s' : Stage, Took s' (stale s').2 c t (stale s').1.handed)
    (habsent : Took s absent.2 c t absent.1.handed) :
    Took s (s.takeCompleted c t bbox stale absent).2 c t
      (s.takeCompleted c t bbox stale absent).1.handed := by
  unfold Stage.takeCompleted
  split
  · next i hi =>
    simp only
    split
    · exact .taken hi rfl rfl rfl
    · exact (Took.dropped hi rfl rfl rfl).trans (hstale _)
  · exact habsent

/-- A fetch is asked for. -/
theorem Took.needFetch (s : Stage) (c : Nat) (t : Int) :
    Took s (s.needFetch t).2 c t (s.needFetch t).1.handed := by
  unfold Stage.needFetch
  split <;> exact .refl s c t

/-- What the first look takes. -/
theorem Took.firstCheck (s : Stage) (c : Nat) (t : Int) (bbox : Option Bbox) :
    Took s (s.firstCheck c t bbox).2 c t (s.firstCheck c t bbox).1.handed :=
  .takeFailed (.takeCompleted (fun s' => .needFetch s' c t) (.needFetch s c t))

theorem Took.loopCheck (s : Stage) (c : Nat) (t : Int) (bbox : Option Bbox) :
    Took s (s.loopCheck c t bbox).2 c t (s.loopCheck c t bbox).1.handed :=
  .takeCompleted (fun s' => .refl s' c t) (.refl s c t)

/-- What the second half of its body takes. -/
theorem Took.waitCheck (s : Stage) (c : Nat) (t : Int) :
    Took s (s.waitCheck t).2 c t (s.waitCheck t).1.handed := by
  refine .takeFailed ?_
  split <;> exact .refl s c t

/-- What the look after the timeout takes. -/
theorem Took.lastCheck (s : Stage) (c : Nat) (t : Int) :
    Took s (s.lastCheck c t).2 c t (s.lastCheck c t).1.handed := by
  unfold Stage.lastCheck
  split
  · next i hi => exact .taken hi rfl rfl rfl
  · exact .takeFailed (.refl s c t)

/-! ### Cancellation -/

/-- The owners after the buffers of a list are released. -/
theorem foldl_release_owner (l : List (Sigma fun _ : Int => Nat)) (s : Stage) (j : Nat)
    (k : Keeper) : (l.foldl (fun s e => s.release e.2) s).owner j = some k ↔
      s.owner j = some k ∧ ∀ t, ⟨t, j⟩ ∉ l := by
  induction l generalizing s with
  | nil => simp
  | cons e l ih =>
    obtain ⟨t, i⟩ := e
    rw [List.foldl_cons, ih]
    -- the buffer of the first entry has no owner afterwards, any other keeps its own
    by_cases hj : j = i
    · subst hj
      have hnone : (s.release j).owner j = none := Function.update_self _ _ _
      simp only [hnone, reduceCtorEq, false_and, false_iff]
      exact fun h => h.2 t List.mem_cons_self
    · have hsame : (s.release i).owner j = s.owner j := Function.update_of_ne hj _ _
      rw [hsame]
      refine and_congr_right fun _ => forall_congr' fun t' => not_congr ?_
      constructor
      · exact List.mem_cons_of_mem _
      · intro h
        rcases List.mem_cons.mp h with heq | hmem
        · cases heq
          exact absurd rfl hj
        · exact hmem

/-- `cancel_pending` takes every staged buffer from its owner, and no other. -/
theorem cancelPending_owner (s : Stage) (j : Nat) (k : Keeper) :
    s.cancelPending.owner j = some k ↔
      s.owner j = some k ∧ ∀ t, s.queue.completed.lookup t ≠ some j := by
  have hperm := List.perm_insertionSort (fun a b : Sigma fun _ : Int => Nat => a.1 ≤ b.1)
    s.queue.completed.entries
  refine (foldl_release_owner _ _ j k).trans (and_congr_right fun _ => forall_congr' fun t => ?_)
  exact not_congr (hperm.mem_iff.trans AList.mem_lookup_iff.symm)

end Stage

namespace PrefetchRun

variable {s s' : PrefetchRun} {c c' f f' i : Nat} {t : Int} {st : Stage} {pc : ReadPc}

/-- What the section that took call `c` from `s` to `s'` did to the staged buffers. -/
def Leaves (s s' : PrefetchRun) (c : Nat) : Prop :=
  s.stage.Took s'.stage c (s.calls c).timestep (s'.calls c).pc.handed

/-- A stretch that begins with a check that went on under the lock. -/
theorem Leaves.after (st : Stage) (h : s.stage.Took st c (s.calls c).timestep none)
    (h' : Leaves (s.withStage st) s' c) : Leaves s s' c :=
  h.trans h'

/-- A section ends, having handed out what its call returns. -/
theorem Leaves.goto (h : s.stage.Took st c (s.calls c).timestep pc.handed) :
    Leaves s ((s.withStage st).goto c pc) c := by
  unfold Leaves
  rw [goto_calls_self]
  exact h

/-- The buffers after the second half of the loop's body. -/
theorem leaves_waitSection (s : PrefetchRun) (c : Nat) : Leaves s (s.waitSection c) c := by
  have htook := Stage.Took.waitCheck s.stage c (s.calls c).timestep
  unfold waitSection
  split
  · next status out st heq =>
    rw [heq] at htook
    exact .goto htook
  · next v st hret heq =>
    rw [heq] at htook
    refine .goto ?_
    cases v with
    | ret status out => exact absurd rfl (hret status out)
    | unlock | proceed => exact htook

/-- The buffers after the loop. -/
theorem leaves_loopSection (s : PrefetchRun) (c : Nat) : Leaves s (s.loopSection c) c := by
  have htook := Stage.Took.loopCheck s.stage c (s.calls c).timestep (s.calls c).bbox
  unfold loopSection
  split
  · next status out st heq =>
    rw [heq] at htook
    exact .goto htook
  · next st heq =>
    rw [heq] at htook
    exact .goto htook
  · next st heq =>
    rw [heq] at htook
    exact .after st htook (leaves_waitSection (s.withStage st) c)

/-- The buffers after `get_buffer` from its first look on. -/
theorem leaves_firstSection (s : PrefetchRun) (c : Nat) : Leaves s (s.firstSection c) c := by
  have htook := Stage.Took.firstCheck s.stage c (s.calls c).timestep (s.calls c).bbox
  unfold firstSection
  split
  · next status out st heq =>
    rw [heq] at htook
    exact .goto htook
  · next st heq =>
    rw [heq] at htook
    exact .goto htook
  · next st heq =>
    rw [heq] at htook
    exact .after st htook (leaves_loopSection (s.withStage st) c)

/-- The window loops hand nothing out. -/
theorem windowPc_handed (s : PrefetchRun) (c k : Nat) : (s.windowPc c k).handed = none := by
  cases h : s.windowPc c k with
  | returned status out => exact windowPc_returned h
  | _ => rfl

theorem resume_handed (s : PrefetchRun) (c : Nat) (next : After) :
    (s.resume c next).handed = none := by
  cases h : s.resume c next with
  | returned status out => exact resume_returned h
  | _ => rfl

/-- A section that schedules hands out nothing. -/
theorem Leaves.idle (st : Stage) (hpool : st.pool = s.stage.pool)
    (howner : st.owner = s.stage.owner)
    (hcompleted : st.queue.completed = s.stage.queue.completed) (hpc : pc.handed = none) :
    Leaves s ((s.withStage st).goto c pc) c :=
  .goto (hpc ▸ .nothing hpool howner hcompleted)

/-- The buffers after a section of a call. -/
theorem callStep_leaves (h : s.callStep c = some s') : Leaves s s' c := by
  unfold callStep at h
  split at h
  -- the first section of a call, of each of the three functions
  · obtain rfl := Option.some.inj h
    unfold enterSection
    cases hkind : (s.calls c).kind with
    | getBuffer =>
      simp only [hkind]
      split
      · exact .after (s.latch (s.calls c).bbox).stage (.nothing rfl rfl rfl)
          (leaves_firstSection (s.latch (s.calls c).bbox) c)
      · exact .idle _ rfl rfl rfl (windowPc_handed s c 0)
    | scheduleNext =>
      simp only [hkind]
      refine .idle s.stage rfl rfl rfl ?_
      split <;> rfl
    | scheduleInitial =>
      simp only [hkind]
      exact .idle s.markKickedOff.stage rfl rfl rfl (windowPc_handed s c 0)
  -- `schedule_fetch` inserts a timestep or skips it
  · next t next hpc =>
    obtain rfl := Option.some.inj h
    unfold trackSection PrefetchQueue.track
    split
    · next sel q heq =>
      split at heq
      · cases heq
      · cases heq
        exact .idle _ rfl rfl rfl rfl
    · exact .idle s.stage rfl rfl rfl (resume_handed s c next)
  -- the sections of `get_buffer` that may hand a buffer out
  · obtain rfl := Option.some.inj h
    exact leaves_firstSection s c
  · obtain rfl := Option.some.inj h
    exact leaves_loopSection s c
  · obtain rfl := Option.some.inj h
    exact leaves_waitSection s c
  · obtain rfl := Option.some.inj h
    exact leaves_loopSection s c
  · cases h
  · cases h

/-! ### The invariant -/

/-- Keeper `k` has buffer `i`. -/
def Claims (s : PrefetchRun) (i : Nat) : Keeper → Prop
  | .staged t => s.stage.queue.completed.lookup t = some i
  | .fetch f => (s.fetches f).phase.buffer = some i
  | .caller c => c < s.ncalls ∧ (s.calls c).pc.handed = some i ∧ (s.calls c).released = false
  | .other => s.stage.owner i = some .other

theorem claims_fetch {j : Nat} :
    Claims s j (.fetch f) ↔ (s.fetches f).phase.buffer = some j := Iff.rfl

theorem claims_caller {j : Nat} : Claims s j (.caller c) ↔
    c < s.ncalls ∧ (s.calls c).pc.handed = some j ∧ (s.calls c).released = false := Iff.rfl

structure Custody (s : PrefetchRun) : Prop where
  owned : s.stage.pool.OwnedBy s.stage.owner
  claims : ∀ i k, s.stage.owner i = some k ↔ Claims s i k
  -- what is released has been handed out
  released : ∀ c, (s.calls c).released = true → (s.calls c).pc.handed ≠ none

/-- A buffer that no one claims is free. -/
theorem Custody.free (h : Custody s) (hi : i < s.stage.pool.size) (hno : ∀ k, ¬ Claims s i k) :
    i ∈ s.stage.pool.freeList := by
  have hnone : s.stage.owner i = none := by
    cases ho : s.stage.owner i with
    | none => rfl
    | some k => exact absurd ((h.claims i k).mp ho) (hno k)
  exact (h.owned.wf.mem_iff i hi).mpr (h.owned.free i hi hnone)

/-- A step after which everybody has what they had. -/
theorem Custody.same (h : Custody s) (howned : s'.stage.pool.OwnedBy s'.stage.owner)
    (howner : s'.stage.owner = s.stage.owner)
    (hclaims : ∀ j k, k ≠ .other → (Claims s' j k ↔ Claims s j k))
    (hreleased : ∀ c, (s'.calls c).released = true → (s'.calls c).pc.handed ≠ none) :
    Custody s' where
  owned := howned
  claims j k := by
    by_cases hk : k = .other
    · subst hk
      exact Iff.rfl
    · rw [howner, h.claims, hclaims j k hk]
  released := hreleased

/-- **One buffer changes hands**, from whoever had it to `o`. -/
theorem Custody.moved (h : Custody s) (o : Option Keeper)
    (howned : s'.stage.pool.OwnedBy s'.stage.owner)
    (howner : s'.stage.owner = Function.update s.stage.owner i o)
    (hclaims : ∀ j k, k ≠ .other → (Claims s' j k ↔
      (Claims s j k ∧ ¬ (j = i ∧ s.stage.owner i = some k)) ∨ (j = i ∧ o = some k)))
    (hreleased : ∀ c, (s'.calls c).released = true → (s'.calls c).pc.handed ≠ none) :
    Custody s' where
  owned := howned
  claims j k := by
    -- what the other users of the pool have is not read off the queue
    by_cases hk : k = .other
    · subst hk
      exact Iff.rfl
    · rw [hclaims j k hk, howner]
      by_cases hj : j = i
      · subst hj
        rw [Function.update_self]
        constructor
        · exact fun ho => .inr ⟨rfl, ho⟩
        · rintro (⟨hc, hnot⟩ | ⟨-, ho⟩)
          · exact absurd ⟨rfl, (h.claims j k).mpr hc⟩ hnot
          · exact ho
      · rw [Function.update_of_ne hj, h.claims]
        simp [hj]
  released := hreleased

/-- A call that has handed out nothing has had nothing released. -/
theorem Custody.running (h : Custody s) (hpc : (s.calls c).pc.handed = none) :
    (s.calls c).released = false := by
  cases hr : (s.calls c).released with
  | false => rfl
  | true => exact absurd hpc (h.released c hr)

/-- The staged buffers without that of `t`. -/
theorem unstaged_iff {o : Option Keeper} {j : Nat} {t' : Int}
    (hi : s.stage.queue.completed.lookup t = some i) (ho : s.stage.owner i = some (.staged t))
    (hne : o ≠ some (.staged t')) : AList.lookup t' (s.stage.queue.completed.erase t) = some j ↔
      (Claims s j (.staged t') ∧ ¬ (j = i ∧ s.stage.owner i = some (.staged t'))) ∨
        (j = i ∧ o = some (.staged t')) := by
  rw [StepMap.lookup_erase, ho]
  by_cases ht : t' = t
  · subst ht
    simp only [if_true, reduceCtorEq, Claims, hi, Option.some.injEq, and_true, hne, and_false,
      or_false, false_iff, not_and, not_not]
    exact Eq.symm
  · simp [ht, Ne.symm ht, Claims, hne]

/-- A call moves. -/
theorem Custody.goto (h : Custody s) (hlt : c < s.ncalls) (hold : (s.calls c).pc.handed = none)
    (htook : s.stage.Took st c t pc.handed) : Custody ((s.withStage st).goto c pc) := by
  have hfalse := h.running hold
  have hreleased : ∀ c', (((s.withStage st).goto c pc).calls c').released = true →
      (((s.withStage st).goto c pc).calls c').pc.handed ≠ none := by
    intro c' hr
    by_cases hc : c' = c
    · subst hc
      rw [goto_calls_self] at hr
      rw [show (s.calls c').released = true from hr] at hfalse
      cases hfalse
    · rw [goto_calls_of_ne _ _ hc] at hr ⊢
      exact h.released c' hr
  -- what `c` has now is what was handed out; the others have what they had
  have hcaller : ∀ j c', Claims ((s.withStage st).goto c pc) j (.caller c') ↔
      Claims s j (.caller c') ∨ (c' = c ∧ pc.handed = some j) := by
    intro j c'
    by_cases hc : c' = c
    · subst hc
      simp only [claims_caller, goto_calls_self, hold, reduceCtorEq, false_and, and_false, true_and,
        false_or]
      exact ⟨fun hj => hj.2.1, fun hj => ⟨hlt, hj, hfalse⟩⟩
    · simp only [claims_caller, goto_calls_of_ne _ _ hc, hc, false_and, or_false]
      exact Iff.rfl
  have hstaged : ∀ j t', Claims ((s.withStage st).goto c pc) j (.staged t') ↔
      st.queue.completed.lookup t' = some j := fun _ _ => Iff.rfl
  generalize pc.handed = handed at htook hcaller
  cases htook with
  | nothing hpool howner hcompleted =>
    refine h.same ?_ howner (fun j k hk => ?_) hreleased
    · change st.pool.OwnedBy st.owner
      rw [hpool, howner]
      exact h.owned
    · cases k with
      | staged t' => rw [hstaged, hcompleted]; exact Iff.rfl
      | fetch f => exact Iff.rfl
      | caller c' => rw [hcaller]; simp
      | other => exact absurd rfl hk
  | @taken i hi hpool howner hcompleted =>
    have ho : s.stage.owner i = some (.staged t) := (h.claims i (.staged t)).mpr hi
    refine h.moved (some (.caller c)) ?_ howner (fun j k hk => ?_) hreleased
    · change st.pool.OwnedBy st.owner
      rw [hpool, howner]
      exact h.owned.transfer ho _
    · cases k with
      | staged t' => rw [hstaged, hcompleted]; exact unstaged_iff hi ho (by simp)
      | fetch f => simp [ho, Claims, withStage, PrefetchRun.goto]
      | caller c' => rw [hcaller, ho]; simp [eq_comm, and_comm]
      | other => exact absurd rfl hk
  | @dropped i hi hpool howner hcompleted =>
    have ho : s.stage.owner i = some (.staged t) := (h.claims i (.staged t)).mpr hi
    refine h.moved none ?_ howner (fun j k hk => ?_) hreleased
    · change st.pool.OwnedBy st.owner
      rw [hpool, howner]
      exact (h.owned.release ho).1
    · cases k with
      | staged t' => rw [hstaged, hcompleted]; exact unstaged_iff hi ho (by simp)
      | fetch f => simp [ho, Claims, withStage, PrefetchRun.goto]
      | caller c' => rw [hcaller, ho]; simp
      | other => exact absurd rfl hk

/-- A section of a call keeps the custody. -/
theorem Custody.callStep (h : Custody s) (hlt : c < s.ncalls) (hstep : s.callStep c = some s') :
    Custody s' := by
  have htook := callStep_leaves hstep
  obtain ⟨st, pc, rfl, hmove⟩ := callStep_cases hstep
  unfold Leaves at htook
  rw [goto_calls_self] at htook
  refine h.goto hlt ?_ htook
  -- a call that moves has not returned
  unfold PrefetchRun.callStep at hstep
  cases hpc : (s.calls c).pc with
  | returned status out => rw [hpc] at hstep; cases hstep
  | _ => rfl

/-- A call that moves without a look at the stage. -/
theorem Custody.submitStep (h : Custody s) (hlt : c < s.ncalls)
    (hfresh : (s.fetches s.nfetches).phase = .finished) {lost : Bool}
    (hstep : s.submitStep c lost = some s') : Custody s' := by
  obtain ⟨t, sel, next, hpc, -, rfl⟩ := submitStep_cases hstep
  have hgoto : Custody ((s.withStage s.stage).goto c (s.resume c next)) := by
    refine h.goto (t := t) hlt (by rw [hpc]; rfl) ?_
    rw [resume_handed]
    exact .refl _ _ _
  refine hgoto.same hgoto.owned rfl (fun j k hk => ?_) hgoto.released
  cases k with
  | fetch f =>
    -- the new fetch has no buffer yet
    by_cases hf : f = s.nfetches
    · subst hf
      have hnone : (if lost = true then FetchPhase.lost else .queued).buffer = none := by
        cases lost <;> rfl
      simp only [Claims, Function.update_self, hnone]
      rw [show (((s.withStage s.stage).goto c (s.resume c next)).fetches s.nfetches).phase =
        .finished from hfresh]
      rfl
    · simp only [Claims, Function.update_of_ne hf]
      exact Iff.rfl
  | staged t' => exact Iff.rfl
  | caller c' => exact Iff.rfl
  | other => exact absurd rfl hk

theorem Custody.notifyIf (h : Custody s) (notify : Bool) : Custody (s.notifyIf notify) := by
  have hhanded : ∀ pc : ReadPc, pc.notify.handed = pc.handed := fun pc => by cases pc <;> rfl
  cases notify with
  | false => exact h
  | true =>
    refine h.same h.owned rfl (fun j k hk => ?_) fun c hr => ?_
    · cases k with
      | staged t => exact Iff.rfl
      | fetch f => exact Iff.rfl
      | caller c => simp only [Claims, PrefetchRun.notifyIf, if_true, notifyAll, hhanded]
      | other => exact absurd rfl hk
    · exact (hhanded _).trans_ne (h.released c hr)

/-- What the fetches have after one of them has moved. -/
theorem claims_setPhase {phase : FetchPhase} (j f' : Nat) :
    Claims ((s.withStage st).setPhase f phase) j (.fetch f') ↔
      if f' = f then phase.buffer = some j else Claims s j (.fetch f') := by
  simp only [Claims, fetches_setPhase]
  split <;> exact Iff.rfl

/-- A fetch moves and keeps the buffer it has, or goes on having none. -/
theorem Custody.setPhase (h : Custody s) {phase : FetchPhase}
    (howned : st.pool.OwnedBy s.stage.owner) (howner : st.owner = s.stage.owner)
    (hcompleted : st.queue.completed = s.stage.queue.completed)
    (hbuffer : phase.buffer = (s.fetches f).phase.buffer) :
    Custody ((s.withStage st).setPhase f phase) := by
  refine h.same (by change st.pool.OwnedBy st.owner; rw [howner]; exact howned) howner
    (fun j k hk => ?_) h.released
  -- what is staged and what callers hold is not touched
  cases k with
  | staged t => change st.queue.completed.lookup t = some j ↔ _; rw [hcompleted]; exact Iff.rfl
  | fetch f' =>
    rw [claims_setPhase]
    split
    · next hf => subst hf; rw [hbuffer]; exact Iff.rfl
    · exact Iff.rfl
  | caller c => exact Iff.rfl
  | other => exact absurd rfl hk

/-- A step of a fetch keeps it. -/
theorem Custody.fetchMove (h : Custody s) (hb : Books s) {phase : FetchPhase} {notify : Bool}
    (hmove : FetchMove s f st phase notify) : Custody ((s.withStage st).setPhase f phase) := by
  have howner : ∀ buf, (s.fetches f).phase.buffer = some buf →
      s.stage.owner buf = some (.fetch f) := fun buf => (h.claims buf (.fetch f)).mpr
  cases hmove with
  | started at_ live => exact h.setPhase h.owned rfl rfl (by rw [at_]; rfl)
  | dropped at_ cancelled => exact h.setPhase h.owned rfl rfl (by rw [at_]; rfl)
  | @got r buf alloc p' at_ ha =>
    obtain ⟨hnone, -, hown⟩ := h.owned.got ha
    have hbuffer : (s.fetches f).phase.buffer = none := by
      rcases at_ with at_ | at_ <;> (rw [at_]; rfl)
    refine h.moved (some (.fetch f)) (hown _) rfl (fun j k hk => ?_) h.released
    rw [hnone]
    cases k with
    | fetch f' =>
      rw [claims_setPhase]
      by_cases hf : f' = f
      · subst hf
        rw [if_pos rfl, claims_fetch, hbuffer]
        simp [FetchPhase.buffer, eq_comm (a := j)]
      · simp [hf, Ne.symm hf]
    | staged t => simp [Claims, withStage, PrefetchRun.setPhase, Stage.acquired]
    | caller c => simp [Claims, withStage, PrefetchRun.setPhase]
    | other => exact absurd rfl hk
  | @refused r alloc res p' phase at_ ha ends =>
    have hne : ∀ j, res ≠ .got j := by
      rcases ends with ⟨rfl, -⟩ | ⟨rfl, -⟩ <;> simp
    obtain ⟨hown, -⟩ := h.owned.denied ha hne
    refine h.setPhase hown rfl rfl ?_
    have hbuffer : (s.fetches f).phase.buffer = none := by
      rcases at_ with at_ | at_ <;> (rw [at_]; rfl)
    rw [hbuffer]
    rcases ends with ⟨-, rfl⟩ | ⟨-, rfl | rfl⟩ <;> rfl
  | @answered buf at_ payload =>
    have ho := howner buf (by rw [at_]; rfl)
    exact h.setPhase (h.owned.fill ho payload).1 rfl rfl (by rw [at_]; rfl)
  | @threw buf at_ => exact h.setPhase h.owned rfl rfl (by rw [at_]; rfl)
  | @released buf at_ =>
    have hbuffer : (s.fetches f).phase.buffer = some buf := by
      rcases at_ with at_ | at_ <;> (rw [at_]; rfl)
    have ho := howner buf hbuffer
    refine h.moved none (h.owned.release ho).1 rfl (fun j k hk => ?_) h.released
    rw [ho]
    cases k with
    | fetch f' =>
      rw [claims_setPhase]
      by_cases hf : f' = f
      · subst hf
        rw [if_pos rfl, claims_fetch, hbuffer]
        simp [FetchPhase.buffer, eq_comm (a := j)]
      · simp [hf, Ne.symm hf]
    | staged t => simp [Claims, withStage, PrefetchRun.setPhase, Stage.release]
    | caller c => simp [Claims, withStage, PrefetchRun.setPhase]
    | other => exact absurd rfl hk
  | @completed buf at_ fits =>
    have hbuffer : (s.fetches f).phase.buffer = some buf := by rw [at_]; rfl
    have ho := howner buf hbuffer
    -- nothing is staged for a timestep that is being fetched, so no buffer is overwritten
    have hworks : Works s (s.fetches f).timestep (.fetch f) := by
      refine ⟨rfl, fun hfinished => ?_⟩
      cases at_.symm.trans hfinished
    have hnone := (hb.fresh _ _ hworks).1
    refine h.moved (some (.staged (s.fetches f).timestep)) (h.owned.transfer ho _) rfl
      (fun j k hk => ?_) h.released
    rw [ho]
    cases k with
    | fetch f' =>
      rw [claims_setPhase]
      by_cases hf : f' = f
      · subst hf
        rw [if_pos rfl, claims_fetch, hbuffer]
        simp [FetchPhase.buffer, eq_comm (a := j)]
      · simp [hf, Ne.symm hf]
    | staged t =>
      have hlookup : Claims ((s.withStage (s.stage.complete (s.fetches f).timestep buf
          (s.fetches f).sel)).setPhase f .finished) j (.staged t) ↔
          AList.lookup t (s.stage.queue.completed.insert (s.fetches f).timestep buf) = some j :=
        Iff.rfl
      rw [hlookup, StepMap.lookup_insert]
      by_cases ht : t = (s.fetches f).timestep
      · subst ht
        simp [Claims, hnone, eq_comm]
      · simp [ht, Ne.symm ht, Claims]
    | caller c => simp [Claims, withStage, PrefetchRun.setPhase]
    | other => exact absurd rfl hk
  | @failed err err_ne at_ =>
    refine h.setPhase h.owned rfl rfl ?_
    rcases at_ with at_ | at_ <;> (rw [at_]; rfl)

/-- The release of a buffer keeps it. -/
theorem Custody.releaseStep (h : Custody s) (hlt : c < s.ncalls)
    (hstep : s.releaseStep c = some s') : Custody s' := by
  obtain ⟨buf, hpc, hreleased, rfl⟩ := releaseStep_cases hstep
  have ho : s.stage.owner buf = some (.caller c) :=
    (h.claims buf (.caller c)).mpr ⟨hlt, by rw [hpc]; rfl, hreleased⟩
  refine h.moved none (h.owned.release ho).1 rfl (fun j k hk => ?_) fun c' hr => ?_
  -- the buffer had been the caller's, and is nobody's now
  · rw [ho]
    cases k with
    | fetch f' => simp [Claims, withStage]
    | staged t => simp [Claims, withStage, Stage.release]
    | caller c' =>
      by_cases hc : c' = c
      · -- the caller had one buffer, and has none now
        subst hc
        refine iff_of_false (fun hj => ?_) ?_
        · simpa using hj.2.2
        · rintro (⟨⟨-, hj, -⟩, hnot⟩ | ⟨-, hj⟩)
          · rw [hpc] at hj
            cases hj
            exact hnot ⟨rfl, rfl⟩
          · cases hj
      · simp [claims_caller, hc, Ne.symm hc, withStage]
    | other => exact absurd rfl hk
  · by_cases hc : c' = c
    · subst hc
      simp [hpc, ReadPc.handed]
    · simp only [Function.update_of_ne hc] at hr ⊢
      exact h.released c' hr

/-- The other users of the pool keep it. -/
theorem Custody.otherStep (h : Custody s) {op : PoolUse} (hstep : s.otherStep op = some s') :
    Custody s' := by
  -- what the other users do concerns no one else's buffers
  have hclaims : ∀ (st : Stage) (j : Nat) (k : Keeper), st.queue = s.stage.queue → k ≠ .other →
      (Claims (s.withStage st) j k ↔ Claims s j k) := by
    intro st j k hq hk
    cases k with
    | staged t => simp only [Claims, withStage, hq]
    | fetch f => exact Iff.rfl
    | caller c => exact Iff.rfl
    | other => exact absurd rfl hk
  cases op with
  | acquire r alloc final =>
    simp only [PrefetchRun.otherStep] at hstep
    rcases hres : (if final then s.stage.pool.acquireFinal r alloc
      else s.stage.pool.acquireOnce r alloc) with ⟨res, p'⟩
    have ha : s.stage.pool.acquireOnce r alloc = (res, p') ∨
        s.stage.pool.acquireFinal r alloc = (res, p') := by
      cases final with
      | true => exact .inr hres
      | false => exact .inl hres
    rw [hres] at hstep
    cases res with
    | got buf =>
      obtain rfl := Option.some.inj hstep
      obtain ⟨hnone, -, hown⟩ := h.owned.got ha
      refine h.moved (some .other) (hown _) rfl (fun j k hk => ?_) h.released
      rw [hclaims (s.stage.acquired p' buf .other) j k rfl hk, hnone]
      simp [Ne.symm hk]
    | threw | blocked =>
      obtain rfl := Option.some.inj hstep
      exact h.same (h.owned.denied ha (by simp)).1 rfl (fun j k => hclaims _ j k rfl) h.released
  | release buf =>
    simp only [PrefetchRun.otherStep] at hstep
    split at hstep
    · next ho =>
      obtain rfl := Option.some.inj hstep
      refine h.moved none (h.owned.release ho).1 rfl (fun j k hk => ?_) h.released
      rw [hclaims (s.stage.release buf) j k rfl hk, ho]
      simp [Ne.symm hk]
    · cases hstep
  | fill buf bytes =>
    simp only [PrefetchRun.otherStep] at hstep
    split at hstep
    · next ho =>
      obtain rfl := Option.some.inj hstep
      exact h.same (h.owned.fill ho bytes).1 rfl (fun j k => hclaims _ j k rfl) h.released
    · cases hstep

/-- Cancellation gives back what is staged. -/
theorem Custody.cancel (h : Custody s) :
    Custody (s.withStage s.stage.cancelPending).notifyAll := by
  have hqueue := Stage.cancelPending_queue s.stage
  have hperm := List.perm_insertionSort (fun a b : Sigma fun _ : Int => Nat => a.1 ≤ b.1)
    s.stage.queue.completed.entries
  have howned : s.stage.cancelPending.pool.OwnedBy s.stage.cancelPending.owner :=
    (Stage.release_entries (s := s.stage.withQueue { s.stage.queue with
      cancelled := true, pending := ∅, completed := ∅, fetchedBbox := ∅, failed := ∅ }) _
      ((hperm.map _).nodup_iff.mpr s.stage.queue.completed.nodupKeys) h.owned fun e he =>
        (h.claims e.2 (.staged e.1)).mpr (AList.mem_lookup_iff.mpr (hperm.mem_iff.mp he))).1
  have hcustody : Custody (s.withStage s.stage.cancelPending) := by
    refine ⟨howned, fun j k => ?_, h.released⟩
    refine (Stage.cancelPending_owner s.stage j k).trans ?_
    cases k with
    | staged t =>
      have hgone : Claims (s.withStage s.stage.cancelPending) j (.staged t) ↔ False := by
        simp [Claims, withStage, hqueue]
      rw [hgone]
      simp only [iff_false, not_and, not_forall, not_not]
      exact fun ho => ⟨t, (h.claims j (.staged t)).mp ho⟩
    | fetch f | caller c =>
      -- nothing that is staged is somebody else's
      refine Iff.trans ⟨fun hj => hj.1, fun ho => ⟨ho, fun t ht => ?_⟩⟩ (h.claims j _)
      have hstaged := (h.claims j (.staged t)).mpr ht
      rw [ho] at hstaged
      cases hstaged
    | other => exact (Stage.cancelPending_owner s.stage j .other).symm
  exact hcustody.notifyIf true

theorem Custody.start (depth : Nat) (id : UInt64) (name : List UInt8) (info : VariableInfo)
    (a : PoolArgs) : Custody (start depth id name info a) where
  owned := .create Keeper a
  claims i k := by cases k <;> simp [Claims, PrefetchRun.start, PrefetchQueue.create,
    FetchPhase.buffer, ReadPc.handed]
  released _ h := by cases h

/-- **Every step keeps the custody.** -/
theorem Custody.step (h : Custody s) (hb : Books s) {op : ReadOp} (hstep : s.step op = some s') :
    Custody s' := by
  cases step_cases hstep with
  -- a call that begins has no buffer
  | begins kind t bbox =>
    have hcall : ∀ c, c ≠ s.ncalls → (s.beginCall kind t bbox).calls c = s.calls c :=
      fun c hc => Function.update_of_ne hc _ _
    refine h.same h.owned rfl (fun j k hk => ?_) fun c hr => ?_
    · cases k with
      | staged t => exact Iff.rfl
      | fetch f => exact Iff.rfl
      | caller c =>
        by_cases hc : c = s.ncalls
        · subst hc
          simp [claims_caller, beginCall, ReadPc.handed]
        · have hlt : c < s.ncalls + 1 ↔ c < s.ncalls := by omega
          rw [claims_caller, claims_caller, hcall c hc]
          exact and_congr_left fun _ => hlt
      | other => exact absurd rfl hk
    · by_cases hc : c = s.ncalls
      · subst hc
        simp [beginCall] at hr
      · rw [hcall c hc] at hr ⊢
        exact h.released c hr
  | calls lt ran => exact h.callStep lt ran
  | submits lt ran => exact h.submitStep lt (hb.bounded.fetches _ (Nat.le_refl _)) ran
  -- the check after the timeout may hand one out
  | @expires c s' lt ran =>
    obtain ⟨notified, status, out, st, hpc, hlast, rfl⟩ := expireStep_cases ran
    have htook := Stage.Took.lastCheck s.stage c (s.calls c).timestep
    rw [hlast] at htook
    exact h.goto lt (by rw [hpc]; rfl) htook
  | fetches lt ran =>
    obtain ⟨st, phase, notify, rfl, hmove⟩ := fetchStep_cases ran
    exact (h.fetchMove hb hmove).notifyIf notify
  | releases lt ran => exact h.releaseStep lt ran
  | cancels => exact h.cancel
  | shuts => exact h.same h.owned rfl (fun j k _ => by cases k <;> exact Iff.rfl) h.released
  | others ran => exact h.otherStep ran

/-- **The owners are known in every run.** -/
theorem Custody.of_reach {ok : PrefetchRun → ReadOp → Prop} (h : system.Reach ok s) : Custody s :=
  h.invariant_of (J := Books) (fun _ => Books.of_reach)
    (fun _ ⟨depth, id, name, info, a, hs⟩ _ => hs ▸ .start depth id name info a)
    fun _ _ _ hb _ hs _ hstep => hs.step hb hstep

/-! ### After the return -/

/-- The call is still there; if it has returned it stays where it is. -/
structure Lasts (s s' : PrefetchRun) (c : Nat) : Prop where
  lt : c < s'.ncalls
  returned : ∀ status out, (s.calls c).pc = .returned status out →
    (s'.calls c).pc = .returned status out

/-- A call that moves, and no other. -/
theorem calls_goto (s : PrefetchRun) (st : Stage) (c c' : Nat) (pc : ReadPc) :
    (((s.withStage st).goto c pc).calls c').released = (s.calls c').released ∧
      (c' ≠ c → (((s.withStage st).goto c pc).calls c').pc = (s.calls c').pc) := by
  by_cases hc : c' = c
  · subst hc
    exact ⟨by simp [goto, withStage], fun hne => absurd rfl hne⟩
  · exact ⟨by simp [goto, withStage, hc], fun _ => by simp [goto, withStage, hc]⟩

/-- A call that has not returned moves, and no other. -/
theorem Lasts.goto {c' : Nat} {st : Stage} {pc : ReadPc} (hlt : c' < s.ncalls)
    (hbusy : ∀ status out, (s.calls c).pc ≠ .returned status out) :
    Lasts s ((s.withStage st).goto c pc) c' := by
  refine ⟨hlt, fun status out hpc => ?_⟩
  have hc : c' ≠ c := by
    rintro rfl
    exact hbusy status out hpc
  rw [(calls_goto s st c c' pc).2 hc]
  exact hpc

/-- `notify_all` moves no call that has returned. -/
theorem Lasts.notifyIf {c' : Nat} (u : PrefetchRun) (hlt : c' < u.ncalls)
    (hcalls : u.calls = s.calls) (notify : Bool) : Lasts s (u.notifyIf notify) c' := by
  cases notify with
  | false => exact ⟨hlt, fun status out hpc => by rw [← hpc, ← hcalls]; rfl⟩
  | true =>
    refine ⟨hlt, fun status out hpc => ?_⟩
    show (u.calls c').pc.notify = _
    rw [hcalls, hpc]
    rfl

/-- **What a step does to a call that was made before.** Only the release of its buffer changes
whether the buffer is released. -/
theorem step_lasts {op : ReadOp} (hstep : s.step op = some s') (hc : c < s.ncalls) :
    Lasts s s' c ∧ (op ≠ .release c → (s'.calls c).released = (s.calls c).released) := by
  cases step_cases hstep with
  | begins kind t bbox =>
    have hcall : (s.beginCall kind t bbox).calls c = s.calls c :=
      Function.update_of_ne (Nat.ne_of_lt hc) _ _
    exact ⟨⟨Nat.lt_succ_of_lt hc, fun _ _ hpc => by rw [hcall, hpc]⟩, fun _ => by rw [hcall]⟩
  -- the call that moves has not returned, so it is another one or keeps its place
  | @calls c₁ s' lt ran =>
    have hran := ran
    obtain ⟨st, pc, rfl, -⟩ := callStep_cases ran
    refine ⟨.goto hc fun status out hpc => ?_, fun _ => (calls_goto s st c₁ c pc).1⟩
    simp [callStep, hpc] at hran
  | @submits c₁ lost s' lt ran =>
    obtain ⟨t, sel, next, hpc, -, rfl⟩ := submitStep_cases ran
    have hlasts : Lasts s ((s.withStage s.stage).goto c₁ (s.resume c₁ next)) c := by
      refine .goto hc fun status out hret => ?_
      cases hpc.symm.trans hret
    exact ⟨⟨hlasts.lt, hlasts.returned⟩, fun _ => (calls_goto s s.stage c₁ c _).1⟩
  | @expires c₁ s' lt ran =>
    obtain ⟨notified, status, out, st, hpc, -, rfl⟩ := expireStep_cases ran
    refine ⟨.goto hc fun status out hret => ?_, fun _ => (calls_goto s _ c₁ c _).1⟩
    cases hpc.symm.trans hret
  | @fetches f fop s' lt ran =>
    obtain ⟨st, phase, notify, rfl, -⟩ := fetchStep_cases ran
    refine ⟨.notifyIf (s := s) ((s.withStage st).setPhase f phase) hc rfl notify, fun _ => ?_⟩
    cases notify <;> rfl
  -- the only step that sets `released`, of one call
  | @releases c₁ s' lt ran =>
    obtain ⟨buf, -, -, rfl⟩ := releaseStep_cases ran
    by_cases heq : c = c₁
    · subst heq
      exact ⟨⟨hc, fun _ _ hpc => by simpa using hpc⟩, fun hne => absurd rfl hne⟩
    · exact ⟨⟨hc, fun _ _ hpc => by simpa [heq] using hpc⟩, fun _ => by simp [heq]⟩
  | cancels =>
    exact ⟨.notifyIf (s := s) (s.withStage s.stage.cancelPending) hc rfl true, fun _ => rfl⟩
  | shuts => exact ⟨⟨hc, fun _ _ hpc => hpc⟩, fun _ => rfl⟩
  | others ran =>
    obtain ⟨st, rfl, -⟩ := otherStep_queue ran
    exact ⟨⟨hc, fun _ _ hpc => hpc⟩, fun _ => rfl⟩

/-- The release of the buffer of call `c`. -/
theorem step_release (hstep : s.step (.release c) = some s') :
    ∃ b, c < s.ncalls ∧ (s.calls c).pc = .returned .ok (some b) ∧ (s.calls c).released = false ∧
      (s'.calls c).released = true := by
  cases step_cases hstep with
  | releases lt ran =>
    obtain ⟨b, hpc, hreleased, rfl⟩ := releaseStep_cases ran
    exact ⟨b, lt, hpc, hreleased, by simp⟩

/-- The buffer of a call can be released until it is. -/
theorem step_release_of {b : Nat} (hc : c < s.ncalls)
    (hpc : (s.calls c).pc = .returned .ok (some b)) (hreleased : (s.calls c).released = false) :
    (s.step (.release c)).isSome := by
  simp [PrefetchRun.step, hc, PrefetchRun.releaseStep, hpc, hreleased]

end PrefetchRun

end Amio
