import Amio.Prefetch.Resolution
import Mathlib.Data.Finset.Card

/-!
# The memory of the look-ahead

A host reads one timestep after another: `get_buffer` for some timestep, and `schedule_next` for the
same one when the read was successful. An entry leaves `completed_` only when its own timestep is
requested, and nothing is ever evicted, so what the queue holds is governed by the timesteps that
the reads have opened and that were not read since (`opened`):

* the number of staged buffers and pending fetches never exceeds the number of these timesteps,
  which is at most the depth plus the number of reads (`look_ahead_bounded`);
* it stays below `2 * depth + 1` for reads of consecutive timesteps, but not for reads with a
  stride (`strided_reads_accumulate`).
-/

namespace Amio

/-! ### Where calls schedule -/

/-- The timestep for which a call is inside `schedule_fetch`. -/
def ReadPc.schedules : ReadPc → Option (Int × After)
  | .scheduling t next => some (t, next)
  | .submitting t _ next => some (t, next)
  | _ => none

/-- A call that is past the window in `get_buffer`. -/
def ReadPc.looks : ReadPc → Bool
  | .checking | .looping | .rechecking | .waiting _ => true
  | _ => false

namespace PrefetchRun

variable {s s' : PrefetchRun} {c c' f i : Nat} {t : Int} {st : Stage} {pc : ReadPc}

/-- What a call schedules: the timesteps of the window it has opened, its own timestep, or the one
`depth` ahead of it. -/
structure Aims (q : PrefetchQueue) (call : ReadCall) : Prop where
  kind : call.pc.looks = true → call.kind = .getBuffer
  target : ∀ t next, call.pc.schedules = some (t, next) →
    match next with
    | .window k => t = i64 (call.timestep + k) ∧ k < q.windowCount call.timestep ∧
        call.kind ≠ .scheduleNext
    | .loop | .recheck => t = call.timestep ∧ call.kind = .getBuffer
    | .done => t = q.nextTimestep call.timestep ∧ t < q.totalTimesteps ∧
        call.kind = .scheduleNext

/-- The depth and the number of timesteps are fixed. -/
theorem Aims.congr {q q' : PrefetchQueue} {call : ReadCall} (hdepth : q'.depth = q.depth)
    (htotal : q'.totalTimesteps = q.totalTimesteps) (h : Aims q call) : Aims q' call where
  kind := h.kind
  target := by
    have hcount : q'.windowCount call.timestep = q.windowCount call.timestep := by
      simp only [PrefetchQueue.windowCount, hdepth, htotal]
    intro t next hpc
    have hnext := h.target t next hpc
    cases next with
    | window k => simpa only [hcount] using hnext
    | loop | recheck => exact hnext
    | done => simpa only [PrefetchQueue.nextTimestep, hdepth, htotal] using hnext

/-- A call of `get_buffer` that schedules nothing, or its own timestep. -/
theorem aims_of_getBuffer {q : PrefetchQueue} {call : ReadCall} (hkind : call.kind = .getBuffer)
    (hpc : call.pc.schedules = none ∨
      ∃ next, (next = .loop ∨ next = .recheck) ∧ call.pc = .scheduling call.timestep next) :
    Aims q call where
  kind _ := hkind
  target := by
    intro t next' hnext'
    rcases hpc with hpc | ⟨next, hnext, hpc⟩
    · rw [hpc] at hnext'
      cases hnext'
    · rw [hpc] at hnext'
      cases hnext'
      rcases hnext with rfl | rfl
      · exact ⟨rfl, hkind⟩
      · exact ⟨rfl, hkind⟩

/-- A call that has returned, or not begun. -/
theorem aims_of_idle {q : PrefetchQueue} {call : ReadCall} (hlooks : call.pc.looks = false)
    (hpc : call.pc.schedules = none) : Aims q call where
  kind h := by
    rw [hlooks] at h
    cases h
  target t next h := by
    rw [hpc] at h
    cases h

/-- The window loop aims at its window. -/
theorem aims_windowPc {k : Nat} (hkind : (s.calls c).kind ≠ .scheduleNext) :
    Aims s.stage.queue { s.calls c with pc := s.windowPc c k } := by
  unfold windowPc
  simp only
  split
  · next hk =>
    refine ⟨nofun, fun t next hpc => ?_⟩
    cases hpc
    exact ⟨rfl, hk, hkind⟩
  · split
    · next hget => exact aims_of_getBuffer hget (.inl rfl)
    · exact aims_of_idle rfl rfl

/-- What follows a submission aims on. -/
theorem aims_resume {next : After} (h : Aims s.stage.queue (s.calls c))
    (hpc : (s.calls c).pc.schedules = some (t, next)) :
    Aims s.stage.queue { s.calls c with pc := s.resume c next } := by
  have htarget := h.target t next hpc
  cases next with
  | window k => exact aims_windowPc htarget.2.2
  | loop | recheck => exact aims_of_getBuffer htarget.2 (.inl rfl)
  | done => exact aims_of_idle rfl rfl

/-- What the first look schedules. -/
theorem FirstEnd.schedules (h : FirstEnd s c pc) : pc.schedules = none ∨
    ∃ next, (next = .loop ∨ next = .recheck) ∧ pc = .scheduling (s.calls c).timestep next := by
  rcases h with ⟨status, out, rfl⟩ | rfl | ⟨rfl, -⟩
  · exact .inl rfl
  · exact .inr ⟨.loop, .inl rfl, rfl⟩
  · exact .inl rfl

/-- The second half of the body schedules nothing. -/
theorem WaitEnd.schedules (h : WaitEnd s c st pc) : pc.schedules = none := by
  rcases h with ⟨status, out, rfl⟩ | ⟨rfl, -⟩
  · rfl
  · rfl

theorem LoopEnd.schedules (h : LoopEnd s c st pc) : pc.schedules = none ∨
    ∃ next, (next = .loop ∨ next = .recheck) ∧ pc = .scheduling (s.calls c).timestep next := by
  rcases h with ⟨rfl, -⟩ | ⟨hwait, -⟩
  · exact .inr ⟨.recheck, .inr rfl, rfl⟩
  · exact .inl hwait.schedules

/-- `schedule_next` looks at the end of the record. -/
theorem callStep_next (hpc : (s.calls c).pc = .entering) (hkind : (s.calls c).kind = .scheduleNext)
    (h : s.callStep c = some s') :
    s' = s.goto c
      (if s.stage.queue.totalTimesteps ≤ s.stage.queue.nextTimestep (s.calls c).timestep
      then .returned .ok none
      else .scheduling (s.stage.queue.nextTimestep (s.calls c).timestep) .done) := by
  simpa [callStep, hpc, enterSection, hkind, eq_comm] using h

/-- The window is opened once. -/
theorem callStep_kicked (hpc : (s.calls c).pc = .entering) (hkind : (s.calls c).kind = .getBuffer)
    (hkicked : s.stage.queue.kickedOff = true) (h : s.callStep c = some s') :
    s' = (s.latch (s.calls c).bbox).firstSection c := by
  simpa [callStep, hpc, enterSection, hkind, hkicked, eq_comm] using h

/-! ### What the steps keep -/

/-- The depth and the length of the record are fixed, and the window stays open. -/
structure Steady (q q' : PrefetchQueue) : Prop where
  depth : q'.depth = q.depth
  total : q'.totalTimesteps = q.totalTimesteps
  kicked : q.kickedOff = true → q'.kickedOff = true
  cancelled : q'.cancelled = q.cancelled

theorem Steady.refl (q : PrefetchQueue) : Steady q q := ⟨rfl, rfl, id, rfl⟩

/-- A look at the stage leaves the queue steady. -/
theorem Steady.of_pruned (h : s.stage.Pruned st t) : Steady s.stage.queue st.queue := by
  rw [h.queue]
  exact ⟨rfl, rfl, id, rfl⟩

theorem CallMove.steady (h : CallMove s c st pc) : Steady s.stage.queue st.queue := by
  cases h with
  | enter at_ kind kicked sec ends =>
    have hsteady := Steady.of_pruned sec.pruned
    exact ⟨hsteady.depth, hsteady.total, hsteady.kicked, hsteady.cancelled⟩
  | first at_ sec ends => exact .of_pruned sec.pruned
  | loop at_ sec ends => exact .of_pruned sec.pruned
  | recheck at_ sec ends => exact .of_pruned sec.pruned
  | kick | initial => exact ⟨rfl, rfl, fun _ => rfl, rfl⟩
  | track => exact ⟨rfl, rfl, id, rfl⟩
  | next | skip => exact .refl _

/-- A call keeps its aim. -/
theorem aims_callStep (h : Aims s.stage.queue (s.calls c)) (hstep : s.callStep c = some s') :
    Aims s'.stage.queue (s'.calls c) := by
  obtain ⟨st, pc, rfl, hmove⟩ := callStep_cases hstep
  rw [goto_calls_self]
  have hsteady := hmove.steady
  refine Aims.congr hsteady.depth hsteady.total ?_
  cases hmove with
  | enter at_ kind kicked sec ends => exact aims_of_getBuffer kind ends.schedules
  | first at_ sec ends => exact aims_of_getBuffer (h.kind (by rw [at_]; rfl)) ends.schedules
  | loop at_ sec ends =>
    have hlooks : (s.calls c).pc.looks = true := by
      rcases at_ with at_ | ⟨notified, at_⟩
      · rw [at_]; rfl
      · rw [at_]; rfl
    exact aims_of_getBuffer (h.kind hlooks) ends.schedules
  | recheck at_ sec ends =>
    exact aims_of_getBuffer (h.kind (by rw [at_]; rfl)) (.inl ends.schedules)
  | kick at_ kind => exact aims_windowPc (by rw [kind]; simp)
  -- `schedule_next` aims at its own timestep, if that is in the record
  | next at_ kind ends =>
    have hgoto := congrArg (fun s => (s.calls c).pc) (callStep_next at_ kind hstep)
    simp only [goto_calls_self] at hgoto
    subst hgoto
    split
    · exact aims_of_idle rfl rfl
    · next hlt =>
      refine ⟨nofun, fun t next hpc => ?_⟩
      cases hpc
      exact ⟨rfl, Int.not_le.mp hlt, kind⟩
  | initial at_ kind => exact aims_windowPc (by rw [kind]; simp)
  -- the timestep that becomes pending is the one that was aimed at
  | @track t next at_ live fresh =>
    have htarget := h.target t next (by rw [at_]; rfl)
    refine ⟨nofun, fun t' next' hpc => ?_⟩
    cases hpc
    exact htarget
  | @skip t next at_ why => exact aims_resume h (by rw [at_]; rfl)

/-! ### What is staged -/

/-- Timestep `t` takes memory: it is being fetched, or its buffer is staged. -/
def Staged (q : PrefetchQueue) (t : Int) : Prop := t ∈ q.pending ∨ q.completed.lookup t ≠ none

/-- A timestep has no fetch and a staged buffer at once. -/
theorem Books.not_pending (h : Books s) (hsome : s.stage.queue.completed.lookup t ≠ none) :
    t ∉ s.stage.queue.pending := by
  intro ht
  obtain ⟨-, x, hx⟩ := (h.pending t).mp ht
  exact hsome (h.fresh t x hx).1

/-- A step of a call makes the timestep it schedules pending, at most. -/
theorem CallMove.pending (h : CallMove s c st pc) (ht : t ∈ st.queue.pending) :
    t ∈ s.stage.queue.pending ∨
      ∃ sel next, (s.calls c).pc = .scheduling t next ∧ pc = .submitting t sel next := by
  cases h with
  | enter at_ kind kicked sec ends => exact .inl (sec.pruned.pending ▸ ht)
  | first at_ sec ends => exact .inl (sec.pruned.pending ▸ ht)
  | loop at_ sec ends => exact .inl (sec.pruned.pending ▸ ht)
  | recheck at_ sec ends => exact .inl (sec.pruned.pending ▸ ht)
  | kick | next | initial | skip => exact .inl ht
  | @track t' next at_ live fresh =>
    rcases Finset.mem_insert.mp ht with rfl | ht
    · exact .inr ⟨_, next, at_, rfl⟩
    · exact .inl ht

/-- A section of a call stages what it schedules, and nothing else. -/
theorem CallMove.staged (h : CallMove s c st pc) (hst : Staged st.queue t) :
    Staged s.stage.queue t ∨ ∃ next, (s.calls c).pc = .scheduling t next := by
  rcases hst with hpending | hsome
  · rcases h.pending hpending with hpending | ⟨sel, next, hpc, -⟩
    · exact .inl (.inl hpending)
    · exact .inr ⟨next, hpc⟩
  · exact .inl (.inr (mt h.completed hsome))

/-- A timestep is not staged when its buffer has just been handed out. -/
theorem not_staged_of_handed (hb : Books s) (hstep : s.callStep c = some s')
    (hhanded : (s'.calls c).pc.handed ≠ none) : ¬ Staged s'.stage.queue (s.calls c).timestep := by
  have hleaves := callStep_leaves hstep
  obtain ⟨st, pc, rfl, hmove⟩ := callStep_cases hstep
  unfold Leaves at hleaves
  rw [goto_calls_self] at hleaves hhanded
  cases hh : pc.handed with
  | none => exact absurd hh hhanded
  | some i =>
    simp only [hh] at hleaves
    cases hleaves with
    -- the buffer left `completed_`, and it was not pending while it was there
    | taken hi hpool howner hcompleted =>
      rintro (hpending | hsome)
      · rcases hmove.pending hpending with hpending | ⟨sel, next, -, rfl⟩
        · exact hb.not_pending (by rw [hi]; simp) hpending
        · cases hh
      · refine hsome ?_
        rw [hcompleted]
        exact AList.lookup_erase _ _

/-- A fetch ends with a result for a timestep that was pending. -/
theorem FetchMove.staged {phase : FetchPhase} {notify : Bool} (hb : Books s)
    (hlive : s.stage.queue.cancelled = false) (h : FetchMove s f st phase notify)
    (hst : Staged st.queue t) : Staged s.stage.queue t := by
  have herase : ∀ {t' : Int}, t ∈ s.stage.queue.pending.erase t' → Staged s.stage.queue t :=
    fun ht => .inl (Finset.mem_of_mem_erase ht)
  cases h with
  | started | got | refused | answered | threw | released => exact hst
  | dropped => exact hst.elim herase .inr
  | failed => exact hst.elim herase .inr
  | @completed buf at_ fits =>
    have hworks : Works s (s.fetches f).timestep (.fetch f) := by
      refine ⟨rfl, fun hfinished => ?_⟩
      cases at_.symm.trans hfinished
    -- the timestep that is completed was pending until now
    by_cases ht : t = (s.fetches f).timestep
    · exact .inl ((hb.pending t).mpr ⟨hlive, .fetch f, ht ▸ hworks⟩)
    · refine hst.elim herase fun hsome => .inr ?_
      have hinsert := StepMap.lookup_insert s.stage.queue.completed (s.fetches f).timestep t buf
      rw [if_neg ht] at hinsert
      rw [← hinsert]
      exact hsome

end PrefetchRun

/-! ### A host that reads -/

/-- Between two reads, inside `get_buffer`, or inside the `schedule_next` that follows. -/
inductive ReaderPhase
  | idle
  | reading (t : Int)
  | advancing (t : Int)
  deriving DecidableEq

/-- A host that reads one timestep after another; `past` are the timesteps that it has read, the
latest first. -/
structure Reader where
  mode : ModeRun
  past : List Int
  phase : ReaderPhase

inductive ReaderOp
  | read (t : Int) (bbox : Option Bbox)
  | advance
  | finish
  | run (op : ReadOp)

namespace Reader

open PrefetchRun

/-- Where the host's call is. -/
def pc (s : Reader) : ReadPc := (s.mode.run.calls (s.mode.run.ncalls - 1)).pc

def step (s : Reader) : ReaderOp → Option Reader
  | .read t bbox =>
    match s.phase with
    -- the timestep is an `std::int64_t`
    | .idle =>
      if IsInt64 t then
        (s.mode.step (.begin .getBuffer t bbox)).map fun mode => ⟨mode, s.past, .reading t⟩
      else none
    | _ => none
  -- only a successful read is followed by `schedule_next`
  | .advance =>
    match s.phase, s.pc with
    | .reading t, .returned .ok (some _) =>
      (s.mode.step (.begin .scheduleNext t none)).map fun mode => ⟨mode, t :: s.past, .advancing t⟩
    | _, _ => none
  | .finish =>
    match s.phase, s.pc with
    | .advancing _, .returned _ _ => some { s with phase := .idle }
    | _, _ => none
  -- everything but another call and the end of the queue
  | .run (.begin _ _ _) | .run .cancel => none
  | .run op => (s.mode.step op).map fun mode => { s with mode := mode }

def system : Lts.System Reader ReaderOp where
  init s := ModeRun.system.init s.mode ∧ s.past = [] ∧ s.phase = .idle
  step := step

/-- A read begins between two reads. -/
theorem step_read {s s' : Reader} {t : Int} {bbox : Option Bbox}
    (h : s.step (.read t bbox) = some s') : s.phase = .idle ∧ IsInt64 t ∧
      ∃ mode, s.mode.step (.begin .getBuffer t bbox) = some mode ∧
        s' = ⟨mode, s.past, .reading t⟩ := by
  simp only [step] at h
  split at h
  · next hphase =>
    split at h
    · next ht =>
      obtain ⟨mode, hmode, rfl⟩ := Option.map_eq_some_iff.mp h
      exact ⟨hphase, ht, mode, hmode, rfl⟩
    · cases h
  · cases h

/-- The `n` timesteps from `t` on. -/
def span (t : Int) (n : Nat) : Finset Int :=
  (Finset.range n).image fun k : Nat => i64 (t + (k : Int))

/-- The look-ahead window of a first read of `t`. -/
def window (depth : Nat) (total t : Int) : Finset Int :=
  span t (min (depth : Int) (i64 (total - t))).toNat

/-- The timesteps of a span. -/
theorem mem_span {t t' : Int} {n : Nat} : t' ∈ span t n ↔ ∃ k < n, t' = i64 (t + (k : Int)) := by
  simp only [span, Finset.mem_image, Finset.mem_range, eq_comm]

/-- The timesteps that a read of `t` finds open. -/
def found (depth : Nat) (total t : Int) (past : List Int) (ahead : Finset Int) : Finset Int :=
  if past = [] then window depth total t else ahead

/-- The timesteps that the reads `past` have opened and that were not read since. -/
def lookAhead (depth : Nat) (total : Int) : List Int → Finset Int
  | [] => ∅
  | t :: past =>
    let left := (found depth total t past (lookAhead depth total past)).erase t
    -- the machine's sum, which a read at the end of the range of timesteps makes negative
    if i64 (t + depth) < total then insert (i64 (t + depth)) left else left

/-- The timesteps that are open now: a read opens the timestep it asks for. -/
def opened (depth : Nat) (total : Int) (past : List Int) : ReaderPhase → Finset Int
  | .reading t => insert t (found depth total t past (lookAhead depth total past))
  | .idle | .advancing _ => lookAhead depth total past

/-- The staged buffers and the pending fetches of the queue. -/
def memory (s : Reader) : Nat :=
  s.mode.run.stage.queue.completed.entries.length + s.mode.run.stage.queue.pending.card

/-! ### The invariant -/

/-- What is known of the host's call. -/
def Current (r : PrefetchRun) (call : ReadCall) (past : List Int) : ReaderPhase → Prop
  | .idle => (0 < r.ncalls → ∃ status out, call.pc = .returned status out) ∧
      (past ≠ [] → r.stage.queue.kickedOff = true)
  | .reading t => 0 < r.ncalls ∧ call.kind = .getBuffer ∧ call.timestep = t ∧
      (call.pc ≠ .entering → r.stage.queue.kickedOff = true) ∧
      -- the window is opened by the first read only
      (past ≠ [] → r.stage.queue.kickedOff = true ∧
        ∀ t' k, call.pc.schedules ≠ some (t', .window k)) ∧
      (call.pc.handed ≠ none → ¬ Staged r.stage.queue t)
  | .advancing t => 0 < r.ncalls ∧ call.kind = .scheduleNext ∧ call.timestep = t ∧
      r.stage.queue.kickedOff = true ∧ past.head? = some t

structure Reading (r : PrefetchRun) (past : List Int) (phase : ReaderPhase) : Prop where
  depth : 1 ≤ r.stage.queue.depth
  live : r.stage.queue.cancelled = false
  ended : ∀ c, c + 1 < r.ncalls → ∃ status out, (r.calls c).pc = .returned status out
  aims : Aims r.stage.queue (r.calls (r.ncalls - 1))
  current : Current r (r.calls (r.ncalls - 1)) past phase
  within : ∀ t, Staged r.stage.queue t →
    t ∈ opened r.stage.queue.depth r.stage.queue.totalTimesteps past phase

variable {r r' : PrefetchRun} {past : List Int} {phase : ReaderPhase} {c : Nat} {t : Int}
  {st : Stage} {pc : ReadPc}

/-- Only the host's last call moves. -/
theorem Reading.moves (h : Reading r past phase) (hc : c < r.ncalls)
    (hpc : ∀ status out, (r.calls c).pc ≠ .returned status out) :
    r.ncalls - 1 = c ∧ phase ≠ .idle := by
  have hlast : r.ncalls - 1 = c := by
    by_contra hne
    obtain ⟨status, out, hret⟩ := h.ended c (by omega)
    exact hpc status out hret
  refine ⟨hlast, ?_⟩
  rintro rfl
  obtain ⟨status, out, hret⟩ := h.current.1 (by omega)
  exact hpc status out (hlast ▸ hret)

/-- **What the host's call schedules is open.** -/
theorem Reading.scheduled (h : Reading r past phase) (hphase : phase ≠ .idle) {next : After}
    (hpc : (r.calls (r.ncalls - 1)).pc.schedules = some (t, next)) :
    t ∈ opened r.stage.queue.depth r.stage.queue.totalTimesteps past phase := by
  have htarget := h.aims.target t next hpc
  have hcurrent := h.current
  cases phase with
  | idle => exact absurd rfl hphase
  -- a read schedules its window, when it is the first, and what it waits for
  | reading t₀ =>
    obtain ⟨-, hkind, htime, -, hwindow, -⟩ := hcurrent
    rw [hkind, htime] at htarget
    cases next with
    | window k =>
      obtain ⟨rfl, hk, -⟩ := htarget
      have hpast : past = [] := by
        by_contra hne
        exact (hwindow hne).2 _ k hpc
      have hmem : i64 (t₀ + (k : Int)) ∈
          window r.stage.queue.depth r.stage.queue.totalTimesteps t₀ :=
        mem_span.mpr ⟨k, hk, rfl⟩
      rw [opened, found, if_pos hpast]
      exact Finset.mem_insert_of_mem hmem
    | loop | recheck =>
      rw [htarget.1]
      exact Finset.mem_insert_self _ _
    | done => cases htarget.2.2
  -- the look-ahead schedules one timestep, if there is one so far ahead
  | advancing t₀ =>
    obtain ⟨-, hkind, htime, -, hhead⟩ := hcurrent
    rw [hkind, htime] at htarget
    cases next with
    | window k => exact absurd rfl htarget.2.2
    | loop | recheck => cases htarget.2
    | done =>
      obtain ⟨rfl, hlt, -⟩ := htarget
      obtain ⟨older, rfl⟩ : ∃ older, past = t₀ :: older := by
        cases past with
        | nil => cases hhead
        | cons t older =>
          cases hhead
          exact ⟨older, rfl⟩
      have hnext : i64 (t₀ + r.stage.queue.depth) < r.stage.queue.totalTimesteps := hlt
      rw [opened, lookAhead, if_pos hnext]
      exact Finset.mem_insert_self _ _

/-- **The host's call moves.** -/
theorem Reading.goto (h : Reading r past phase) (hc : r.ncalls - 1 = c) (hphase : phase ≠ .idle)
    (hsteady : Steady r.stage.queue st.queue) (haims : Aims st.queue { r.calls c with pc := pc })
    (hstaged : ∀ t, Staged st.queue t →
      Staged r.stage.queue t ∨ ∃ next, (r.calls c).pc.schedules = some (t, next))
    (hkicked : (r.calls c).kind = .getBuffer → pc ≠ .entering → st.queue.kickedOff = true)
    (hwindow : (r.calls c).kind = .getBuffer → r.stage.queue.kickedOff = true →
      (∀ t k, (r.calls c).pc.schedules ≠ some (t, .window k)) →
        ∀ t k, pc.schedules ≠ some (t, .window k))
    (hgiven : pc.handed ≠ none → ¬ Staged st.queue (r.calls c).timestep) :
    Reading ((r.withStage st).goto c pc) past phase := by
  subst hc
  have hself : ((r.withStage st).goto (r.ncalls - 1) pc).calls (r.ncalls - 1) =
      { r.calls (r.ncalls - 1) with pc := pc } := goto_calls_self _ _ _
  -- the call that moves is the last one; the others have returned and stay
  refine ⟨h.depth.trans_eq hsteady.depth.symm, hsteady.cancelled.trans h.live, fun c hc => ?_, ?_,
    ?_, fun t ht => ?_⟩
  · have hne : c ≠ r.ncalls - 1 := by
      have hc' : c + 1 < r.ncalls := hc
      omega
    rw [goto_calls_of_ne _ _ hne]
    exact h.ended c hc
  · exact hself ▸ haims
  · have hcurrent := h.current
    show Current _ (((r.withStage st).goto (r.ncalls - 1) pc).calls (r.ncalls - 1)) past phase
    rw [hself]
    cases phase with
    | idle => exact absurd rfl hphase
    | reading t =>
      obtain ⟨hpos, hkind, htime, -, hpast, -⟩ := hcurrent
      refine ⟨hpos, hkind, htime, hkicked hkind, fun hne => ?_, fun hhanded => ?_⟩
      · obtain ⟨hk, hw⟩ := hpast hne
        exact ⟨hsteady.kicked hk, hwindow hkind hk hw⟩
      · exact htime ▸ hgiven hhanded
    | advancing t =>
      obtain ⟨hpos, hkind, htime, hk, hhead⟩ := hcurrent
      exact ⟨hpos, hkind, htime, hsteady.kicked hk, hhead⟩
  -- what is staged was staged before, or is what the call schedules
  · have hopen : t ∈ opened r.stage.queue.depth r.stage.queue.totalTimesteps past phase := by
      rcases hstaged t ht with ht | ⟨next, hpc⟩
      · exact h.within t ht
      · exact h.scheduled hphase hpc
    rw [← hsteady.depth, ← hsteady.total] at hopen
    exact hopen

/-- What `notify_all` and the release of a buffer leave of a call. -/
structure Likewise (call call' : ReadCall) : Prop where
  kind : call'.kind = call.kind
  timestep : call'.timestep = call.timestep
  pc : call'.pc = call.pc ∨ call'.pc = call.pc.notify

theorem Likewise.schedules {call call' : ReadCall} (h : Likewise call call') :
    call'.pc.schedules = call.pc.schedules := by
  rcases h.pc with hpc | hpc
  · rw [hpc]
  · rw [hpc]
    cases call.pc <;> rfl

/-- It looks for the same. -/
theorem Likewise.looks {call call' : ReadCall} (h : Likewise call call') :
    call'.pc.looks = call.pc.looks := by
  rcases h.pc with hpc | hpc
  · rw [hpc]
  · rw [hpc]
    cases call.pc <;> rfl

/-- It has been handed the same. -/
theorem Likewise.handed {call call' : ReadCall} (h : Likewise call call') :
    call'.pc.handed = call.pc.handed := by
  rcases h.pc with hpc | hpc
  · rw [hpc]
  · rw [hpc]
    cases call.pc <;> rfl

theorem Likewise.entering {call call' : ReadCall} (h : Likewise call call')
    (hne : call'.pc ≠ .entering) : call.pc ≠ .entering := by
  rcases h.pc with hpc | hpc
  · rwa [hpc] at hne
  · intro hcall
    rw [hpc, hcall] at hne
    exact hne rfl

theorem Likewise.returned {call call' : ReadCall} (h : Likewise call call')
    (hret : ∃ status out, call.pc = .returned status out) :
    ∃ status out, call'.pc = .returned status out := by
  obtain ⟨status, out, hret⟩ := hret
  rcases h.pc with hpc | hpc
  · exact ⟨status, out, hpc.trans hret⟩
  · exact ⟨status, out, by rw [hpc, hret]; rfl⟩

/-- **Somebody else moves.** -/
theorem Reading.frame (h : Reading r past phase) (hncalls : r'.ncalls = r.ncalls)
    (hcalls : ∀ c, Likewise (r.calls c) (r'.calls c))
    (hsteady : Steady r.stage.queue r'.stage.queue)
    (hstaged : ∀ t, Staged r'.stage.queue t → Staged r.stage.queue t) :
    Reading r' past phase where
  depth := h.depth.trans_eq hsteady.depth.symm
  live := hsteady.cancelled.trans h.live
  ended c hc := (hcalls c).returned (h.ended c (hncalls ▸ hc))
  aims := by
    rw [hncalls]
    have haims := h.aims.congr hsteady.depth hsteady.total
    have hlike := hcalls (r.ncalls - 1)
    refine ⟨fun hlooks => ?_, fun t next hpc => ?_⟩
    · rw [hlike.kind]
      exact haims.kind (hlike.looks ▸ hlooks)
    · rw [hlike.kind, hlike.timestep]
      exact haims.target t next (hlike.schedules ▸ hpc)
  current := by
    rw [hncalls]
    have hcurrent := h.current
    have hlike := hcalls (r.ncalls - 1)
    -- what is known of the host's call does not depend on its position, except through these
    cases phase with
    | idle =>
      refine ⟨fun hpos => hlike.returned (hcurrent.1 (hncalls ▸ hpos)), fun hne => ?_⟩
      exact hsteady.kicked (hcurrent.2 hne)
    | reading t =>
      obtain ⟨hpos, hkind, htime, hentered, hpast, hgiven⟩ := hcurrent
      refine ⟨hncalls ▸ hpos, hlike.kind.trans hkind, hlike.timestep.trans htime, fun hne => ?_,
        fun hne => ?_, fun hhanded hst => ?_⟩
      · exact hsteady.kicked (hentered (hlike.entering hne))
      · rw [hlike.schedules]
        exact ⟨hsteady.kicked (hpast hne).1, (hpast hne).2⟩
      · exact hgiven (hlike.handed ▸ hhanded) (hstaged t hst)
    | advancing t =>
      obtain ⟨hpos, hkind, htime, hk, hhead⟩ := hcurrent
      exact ⟨hncalls ▸ hpos, hlike.kind.trans hkind, hlike.timestep.trans htime,
        hsteady.kicked hk, hhead⟩
  within t ht := by
    rw [hsteady.depth, hsteady.total]
    exact h.within t (hstaged t ht)

/-- The window is opened by a call that finds it closed. -/
theorem window_of_callStep (hkind : (r.calls c).kind = .getBuffer)
    (hkicked : r.stage.queue.kickedOff = true)
    (hold : ∀ t k, (r.calls c).pc.schedules ≠ some (t, .window k))
    (hstep : r.callStep c = some r') : ∀ t k, (r'.calls c).pc.schedules ≠ some (t, .window k) := by
  have hends : ∀ {call : ReadCall} {pc : ReadPc}, (pc.schedules = none ∨
      ∃ next, (next = .loop ∨ next = .recheck) ∧ pc = .scheduling call.timestep next) →
      ∀ t k, pc.schedules ≠ some (t, .window k) := by
    rintro call pc (hnone | ⟨next, hnext, rfl⟩) t k hpc
    · rw [hnone] at hpc
      cases hpc
    · cases hpc
      rcases hnext with hnext | hnext <;> cases hnext
  obtain ⟨st, pc, rfl, hmove⟩ := callStep_cases hstep
  rw [goto_calls_self]
  cases hmove with
  | enter at_ kind kicked sec ends => exact hends ends.schedules
  | first at_ sec ends => exact hends ends.schedules
  | loop at_ sec ends => exact hends ends.schedules
  | recheck at_ sec ends => exact @hends (r.calls c) _ (.inl ends.schedules)
  | kick at_ kind =>
    -- the window is open already, so this step looks at the results
    obtain ⟨st', pc', hfirst, -, ends⟩ := firstSection_spec (r.latch (r.calls c).bbox) c
    have heq := (callStep_kicked at_ kind hkicked hstep).trans hfirst
    have hpc := congrArg (fun s => (s.calls c).pc) heq
    simp only [goto_calls_self] at hpc
    rw [hpc]
    exact hends ends.schedules
  | next at_ kind => cases hkind.symm.trans kind
  | initial at_ kind => cases hkind.symm.trans kind
  | @track t next at_ =>
    intro t' k hpc
    refine hold t' k ?_
    rw [at_]
    exact hpc
  | @skip t next at_ =>
    cases next with
    | window k => exact absurd (by rw [at_]; rfl) (hold t k)
    | loop | recheck | done => exact nofun

/-- A call of `get_buffer` that has entered has opened the window, or found it open. -/
theorem Reading.kicked (h : Reading r past phase) (hlast : r.ncalls - 1 = c)
    (hphase : phase ≠ .idle) (hkind : (r.calls c).kind = .getBuffer)
    (hne : (r.calls c).pc ≠ .entering) :
    r.stage.queue.kickedOff = true := by
  have hcurrent := h.current
  rw [hlast] at hcurrent
  cases phase with
  | idle => exact absurd rfl hphase
  | reading t => exact hcurrent.2.2.2.1 hne
  | advancing t => cases hkind.symm.trans hcurrent.2.1

/-- A section of the host's call. -/
theorem Reading.callStep (h : Reading r past phase) (hb : Books r) (hc : c < r.ncalls)
    (hstep : r.callStep c = some r') : Reading r' past phase := by
  -- a call that has returned takes no step
  have hbusy : ∀ status out, (r.calls c).pc ≠ .returned status out := by
    intro status out hpc
    rw [PrefetchRun.callStep, hpc] at hstep
    cases hstep
  obtain ⟨hlast, hphase⟩ := h.moves hc hbusy
  -- it is the last call that moves, and it aims at what it may schedule
  have haims : Aims r.stage.queue (r.calls c) := hlast ▸ h.aims
  have haims' := aims_callStep haims hstep
  have hgiven := not_staged_of_handed hb hstep
  have hwindow := fun hkind hkicked hold => window_of_callStep hkind hkicked hold hstep
  obtain ⟨st, pc, rfl, hmove⟩ := callStep_cases hstep
  rw [goto_calls_self] at haims' hgiven hwindow
  refine h.goto hlast hphase hmove.steady haims' (fun t ht => ?_) (fun hkind _ => ?_) hwindow hgiven
  · rcases hmove.staged ht with ht | ⟨next, hpc⟩
    · exact .inl ht
    · exact .inr ⟨next, by rw [hpc]; rfl⟩
  -- past its first section the queue is kicked off
  · have hentered : (r.calls c).pc ≠ .entering → st.queue.kickedOff = true :=
      fun hne => hmove.steady.kicked (h.kicked hlast hphase hkind hne)
    cases hmove with
    | enter at_ kind kicked sec ends => exact (Steady.of_pruned sec.pruned).kicked kicked
    | kick => rfl
    | initial => rfl
    | next at_ kind => cases hkind.symm.trans kind
    | first at_ | recheck at_ | track at_ | skip at_ => exact hentered (by rw [at_]; simp)
    | loop at_ =>
      refine hentered ?_
      rcases at_ with at_ | ⟨notified, at_⟩
      · rw [at_]; simp
      · rw [at_]; simp

/-- The host's call submits a fetch. -/
theorem Reading.submitStep (h : Reading r past phase) (hc : c < r.ncalls) {lost : Bool}
    (hstep : r.submitStep c lost = some r') : Reading r' past phase := by
  obtain ⟨t, sel, next, hpc, -, rfl⟩ := submitStep_cases hstep
  obtain ⟨hlast, hphase⟩ := h.moves hc (by rw [hpc]; exact nofun)
  have haims : Aims r.stage.queue (r.calls c) := hlast ▸ h.aims
  have hsched : (r.calls c).pc.schedules = some (t, next) := by rw [hpc]; rfl
  -- the call moves on as if the fetch were not there, and then it is added
  have hgoto : Reading ((r.withStage r.stage).goto c (r.resume c next)) past phase := by
    refine h.goto hlast hphase (.refl _) (aims_resume haims hsched) (fun _ ht => .inl ht)
      (fun hkind _ => ?_) (fun _ _ hold t' k hpc' => ?_) (fun hhanded => ?_)
    · exact h.kicked hlast hphase hkind (by rw [hpc]; simp)
    · cases next with
      | window k' => exact hold t k' hsched
      | loop | recheck | done => cases hpc'
    · exact absurd (resume_handed r c next) hhanded
  exact hgoto.frame rfl (fun _ => ⟨rfl, rfl, .inl rfl⟩) (.refl _) fun _ ht => ht

/-- The host's call times out. -/
theorem Reading.expireStep (h : Reading r past phase) (hb : Books r) (hc : c < r.ncalls)
    (hstep : r.expireStep c = some r') : Reading r' past phase := by
  obtain ⟨notified, status, out, st, hpc, hcheck, rfl⟩ := expireStep_cases hstep
  obtain ⟨hlast, hphase⟩ := h.moves hc (by rw [hpc]; exact nofun)
  have hpruned := Stage.Pruned.lastCheck r.stage c (r.calls c).timestep
  have htook := Stage.Took.lastCheck r.stage c (r.calls c).timestep
  rw [hcheck] at hpruned htook
  refine h.goto hlast hphase (.of_pruned hpruned) (aims_of_idle rfl rfl) (fun t ht => .inl ?_)
    (fun hkind _ => ?_) (fun _ _ _ => nofun) (fun hhanded hst => ?_)
  · exact ht.imp (hpruned.pending ▸ ·) (mt hpruned.completed_none)
  · exact (Steady.of_pruned hpruned).kicked (h.kicked hlast hphase hkind (by rw [hpc]; simp))
  · -- a buffer that is handed out is staged no longer
    cases out with
    | none => exact hhanded rfl
    | some i =>
      cases htook with
      | taken hi hpool howner hcompleted =>
        rcases hst with hpending | hsome
        · exact hb.not_pending (by rw [hi]; simp) (hpruned.pending ▸ hpending)
        · refine hsome ?_
          rw [hcompleted]
          exact AList.lookup_erase _ _

/-- A fetch takes a step. -/
theorem Reading.fetchStep (h : Reading r past phase) (hb : Books r) {f : Nat} {op : FetchOp}
    (hstep : r.fetchStep f op = some r') : Reading r' past phase := by
  obtain ⟨st, next, notify, rfl, hmove⟩ := fetchStep_cases hstep
  have hsteady : Steady r.stage.queue st.queue := by
    cases hmove <;> exact ⟨rfl, rfl, id, rfl⟩
  have hstaged : ∀ t, Staged st.queue t → Staged r.stage.queue t :=
    fun t => hmove.staged hb h.live
  cases notify with
  | false => exact h.frame rfl (fun _ => ⟨rfl, rfl, .inl rfl⟩) hsteady hstaged
  | true => exact h.frame rfl (fun _ => ⟨rfl, rfl, .inr rfl⟩) hsteady hstaged

/-- The host releases a buffer. -/
theorem Reading.releaseStep (h : Reading r past phase) (hstep : r.releaseStep c = some r') :
    Reading r' past phase := by
  obtain ⟨buf, -, -, rfl⟩ := releaseStep_cases hstep
  refine h.frame rfl (fun c' => ?_) (.refl _) fun _ ht => ht
  simp only [Function.update_apply]
  split
  · next hc =>
    subst hc
    exact ⟨rfl, rfl, .inl rfl⟩
  · exact ⟨rfl, rfl, .inl rfl⟩

/-- Somebody else uses the pool. -/
theorem Reading.otherStep (h : Reading r past phase) {op : PoolUse}
    (hstep : r.otherStep op = some r') : Reading r' past phase := by
  obtain ⟨st, rfl, hqueue⟩ := otherStep_queue hstep
  refine h.frame rfl (fun _ => ⟨rfl, rfl, .inl rfl⟩) ?_ fun t ht => ?_
  · show Steady r.stage.queue st.queue
    rw [hqueue]
    exact .refl _
  · have hstaged : Staged st.queue t := ht
    rwa [hqueue] at hstaged

/-- Whatever happens inside the queue. -/
theorem Reading.run (h : Reading r past phase) (hb : Books r) {op : ReadOp}
    (hbegin : ∀ kind t bbox, op ≠ .begin kind t bbox) (hcancel : op ≠ .cancel)
    (hstep : r.step op = some r') : Reading r' past phase := by
  cases step_cases hstep with
  | begins kind t bbox => exact absurd rfl (hbegin kind t bbox)
  | cancels => exact absurd rfl hcancel
  | calls lt ran => exact h.callStep hb lt ran
  | submits lt ran => exact h.submitStep lt ran
  | expires lt ran => exact h.expireStep hb lt ran
  | fetches lt ran => exact h.fetchStep hb ran
  | releases lt ran => exact h.releaseStep ran
  | shuts => exact h.frame rfl (fun _ => ⟨rfl, rfl, .inl rfl⟩) (.refl _) fun _ ht => ht
  | others ran => exact h.otherStep ran

/-- The host begins a call when its last one is over. -/
theorem Reading.begin (h : Reading r past phase) {kind : ReadKind} {bbox : Option Bbox}
    {past' : List Int} {phase' : ReaderPhase}
    (hlast : 0 < r.ncalls → ∃ status out, (r.calls (r.ncalls - 1)).pc = .returned status out)
    (hcurrent : ∀ call : ReadCall, call.pc = .entering → call.kind = kind →
      (kind ≠ .scheduleInitial → call.timestep = t) → ∀ n,
        Current { r with ncalls := n + 1 } call past' phase')
    (hwithin : ∀ t, Staged r.stage.queue t →
      t ∈ opened r.stage.queue.depth r.stage.queue.totalTimesteps past' phase') :
    Reading (r.beginCall kind t bbox) past' phase' := by
  -- the new call is the last one now
  have hself : (r.beginCall kind t bbox).calls (r.ncalls + 1 - 1) =
      ⟨kind, if kind = .scheduleInitial then 0 else t, bbox, .entering, false⟩ :=
    Function.update_self _ _ _
  refine ⟨h.depth, h.live, fun c hc => ?_, ?_, ?_, hwithin⟩
  · have hlt : c < r.ncalls := Nat.lt_of_succ_lt_succ hc
    have hne : c ≠ r.ncalls := Nat.ne_of_lt hlt
    simp only [beginCall, Function.update_of_ne hne]
    rcases Nat.lt_or_ge (c + 1) r.ncalls with hover | hover
    · exact h.ended c hover
    · obtain rfl : c = r.ncalls - 1 := by omega
      exact hlast (Nat.pos_of_ne_zero fun h0 => by omega)
  · show Aims _ ((r.beginCall kind t bbox).calls (r.ncalls + 1 - 1))
    rw [hself]
    exact aims_of_idle rfl rfl
  · show Current _ ((r.beginCall kind t bbox).calls (r.ncalls + 1 - 1)) past' phase'
    rw [hself]
    have hnow := hcurrent ⟨kind, if kind = .scheduleInitial then 0 else t, bbox, .entering, false⟩
      rfl rfl (fun hk => if_neg hk) r.ncalls
    cases phase' <;> exact hnow

/-! ### Runs -/

variable {s s' : Reader}

/-- What a read finds ahead of it, it leaves ahead. -/
theorem mem_lookAhead_cons {depth : Nat} {total t' : Int} (hne : t' ≠ t)
    (h : t' ∈ found depth total t past (lookAhead depth total past)) :
    t' ∈ lookAhead depth total (t :: past) := by
  have hleft : t' ∈ (found depth total t past (lookAhead depth total past)).erase t :=
    Finset.mem_erase.mpr ⟨hne, h⟩
  rw [lookAhead]
  split
  · exact Finset.mem_insert_of_mem hleft
  · exact hleft

/-- The host asks for a timestep: what is staged for it was staged before. -/
theorem Reading.read (h : Reading s.mode.run s.past s.phase) {t : Int} {bbox : Option Bbox}
    (hstep : s.step (.read t bbox) = some s') : Reading s'.mode.run s'.past s'.phase := by
  obtain ⟨hphase, -, mode, hmode, rfl⟩ := step_read hstep
  have hrun := Option.some.inj (ModeRun.step_run hmode)
  have hcurrent := h.current
  have hwithin := h.within
  rw [hphase] at hcurrent hwithin
  show Reading mode.run s.past (.reading t)
  rw [← hrun]
  refine h.begin hcurrent.1 ?_ fun t' ht' => ?_
  -- the new call has not done anything yet
  · intro call hpc hkind htime n
    refine ⟨Nat.succ_pos n, hkind, htime nofun, fun hne => absurd hpc hne, fun hne => ?_, ?_⟩
    · refine ⟨hcurrent.2 hne, ?_⟩
      rw [hpc]
      exact nofun
    · rw [hpc]
      exact fun hne => absurd rfl hne
  -- what was open stays open, and the timestep of the read is open now
  · have hopen := hwithin t' ht'
    refine Finset.mem_insert_of_mem ?_
    rw [found]
    split
    · next hnil =>
      rw [hnil] at hopen
      cases hopen
    · exact hopen

/-- The host has its buffer and moves the window on. -/
theorem Reading.advance (h : Reading s.mode.run s.past s.phase)
    (hstep : s.step .advance = some s') : Reading s'.mode.run s'.past s'.phase := by
  simp only [Reader.step] at hstep
  split at hstep
  · next t buf hphase hpc =>
    obtain ⟨mode, hmode, rfl⟩ := Option.map_eq_some_iff.mp hstep
    have hrun := Option.some.inj (ModeRun.step_run hmode)
    have hcurrent := h.current
    have hwithin := h.within
    rw [hphase] at hcurrent hwithin
    have hpc' : (s.mode.run.calls (s.mode.run.ncalls - 1)).pc = .returned .ok (some buf) := hpc
    obtain ⟨-, -, -, hentered, -, hgiven⟩ := hcurrent
    rw [hpc'] at hentered hgiven
    show Reading mode.run (t :: s.past) (.advancing t)
    rw [← hrun]
    refine h.begin (fun _ => ⟨_, _, hpc'⟩) ?_ fun t' ht' => ?_
    · intro call _ hkind htime n
      exact ⟨Nat.succ_pos n, hkind, htime nofun, hentered nofun, rfl⟩
    -- the timestep that was read is not staged any more
    · have hne : t' ≠ t := by
        rintro rfl
        exact hgiven nofun ht'
      exact mem_lookAhead_cons hne (Finset.mem_of_mem_insert_of_ne (hwithin t' ht') hne)
  · cases hstep

/-- The window has moved on, and the host may read again. -/
theorem Reading.finish (h : Reading s.mode.run s.past s.phase)
    (hstep : s.step .finish = some s') : Reading s'.mode.run s'.past s'.phase := by
  simp only [Reader.step] at hstep
  split at hstep
  · next t status out hphase hpc =>
    obtain rfl := Option.some.inj hstep
    have hcurrent := h.current
    have hwithin := h.within
    rw [hphase] at hcurrent hwithin
    exact ⟨h.depth, h.live, h.ended, h.aims, ⟨fun _ => ⟨_, _, hpc⟩, fun _ => hcurrent.2.2.2.1⟩,
      hwithin⟩
  · cases hstep

/-- **Every step keeps what is staged among what is open.** -/
theorem Reading.step (h : Reading s.mode.run s.past s.phase) (hb : Books s.mode.run)
    {op : ReaderOp} (hstep : s.step op = some s') : Reading s'.mode.run s'.past s'.phase := by
  cases op with
  | read t bbox => exact h.read hstep
  | advance => exact h.advance hstep
  | finish => exact h.finish hstep
  | run op =>
    -- every other operation goes through the mode's own run
    have hother : ∀ {op : ReadOp}, (∀ kind t bbox, op ≠ .begin kind t bbox) → op ≠ .cancel →
        ((s.mode.step op).map fun mode => { s with mode := mode }) = some s' →
        Reading s'.mode.run s'.past s'.phase := by
      intro op hbegin hcancel hop
      obtain ⟨mode, hmode, rfl⟩ := Option.map_eq_some_iff.mp hop
      exact h.run hb hbegin hcancel (ModeRun.step_run hmode)
    cases op with
    | begin | cancel => cases hstep
    | call | submit | expire | fetch | release | shutdown | other =>
      exact hother (by simp) (by simp) hstep

/-- The reader's queue is in a state that a queue can reach. -/
theorem mode_reachable (h : system.Reachable s) : PrefetchRun.system.Reachable s.mode.run := by
  induction h with
  | init hinit => exact .init hinit.1.1
  | @step s s' op _ _ hstep ih =>
    -- every operation of the reader is one of the mode, or none
    have hmode : ∀ {op : ReadOp} {f : ModeRun → Reader}, (∀ m, (f m).mode = m) →
        (s.mode.step op).map f = some s' → PrefetchRun.system.Reachable s'.mode.run := by
      intro op f hf hop
      obtain ⟨mode, hmode, rfl⟩ := Option.map_eq_some_iff.mp hop
      rw [hf]
      exact .step ih trivial (ModeRun.step_run hmode)
    cases op with
    | read t bbox =>
      obtain ⟨-, -, mode, hrun, rfl⟩ := step_read hstep
      exact .step ih trivial (ModeRun.step_run hrun)
    | advance =>
      simp only [system, Reader.step] at hstep
      split at hstep
      · exact hmode (fun _ => rfl) hstep
      · cases hstep
    | finish =>
      simp only [system, Reader.step] at hstep
      split at hstep
      · obtain rfl := Option.some.inj hstep
        exact ih
      · cases hstep
    | run op =>
      cases op with
      -- the reader begins its calls itself, and does not cancel
      | begin | cancel => cases hstep
      | call | submit | expire | fetch | release | shutdown | other =>
        exact hmode (fun _ => rfl) hstep

/-- What is staged is open, in every run of the reader. -/
theorem Reading.of_reachable (h : system.Reachable s) :
    Reading s.mode.run s.past s.phase := by
  refine h.invariant_of (J := fun s => Books s.mode.run)
    (I := fun s => Reading s.mode.run s.past s.phase) (fun s hs => ?_) ?_ ?_
  · exact .of_reach (mode_reachable (hs.mono fun _ _ _ => trivial))
  · rintro s ⟨⟨hinit, -⟩, hpast, hphase⟩ -
    obtain ⟨depth, id, name, info, a, hstart⟩ := hinit
    rw [hpast, hphase, hstart]
    -- the depth is clamped when the queue is created
    have hdepth : 1 ≤ (PrefetchQueue.create depth id name info).depth := by
      simp only [PrefetchQueue.create, PrefetchQueue.kMinDepth, PrefetchQueue.kMaxDepth]
      split
      · exact Nat.le_refl _
      · split <;> omega
    refine ⟨hdepth, rfl, fun c hc => absurd hc (Nat.not_lt_zero _), aims_of_idle rfl rfl,
      ⟨fun _ => ⟨_, _, rfl⟩, fun hne => absurd rfl hne⟩, ?_⟩
    rintro t (hpending | hsome)
    · cases hpending
    · exact absurd rfl hsome
  · intro s op s' hb _ hs _ hstep
    exact hs.step hb hstep

/-! ### The bounds -/

/-- A span is as long as it says, or shorter. -/
theorem card_span_le (t : Int) (n : Nat) : (span t n).card ≤ n :=
  Finset.card_image_le.trans (Finset.card_range n).le

/-- A window is no longer than the depth. -/
theorem card_window_le (depth : Nat) (total t : Int) : (window depth total t).card ≤ depth :=
  (card_span_le t _).trans (by omega)

/-- Every read opens one timestep, and the first one the window. -/
theorem card_lookAhead_le (depth : Nat) (total : Int) (past : List Int) :
    (lookAhead depth total past).card ≤ depth + past.length := by
  induction past with
  | nil => exact Nat.zero_le _
  | cons t past ih =>
    have hfound : (found depth total t past (lookAhead depth total past)).card ≤
        depth + past.length := by
      rw [found]
      split
      · exact (card_window_le depth total t).trans (Nat.le_add_right _ _)
      · exact ih
    -- taking a timestep out makes the set no larger
    have hleft := (Finset.card_erase_le
      (s := found depth total t past (lookAhead depth total past)) (a := t)).trans hfound
    rw [lookAhead, List.length_cons]
    split
    · exact (Finset.card_insert_le _ _).trans (Nat.succ_le_succ hleft)
    · exact hleft.trans (Nat.le_succ _)

/-- A window is a part of its span. -/
theorem window_subset (depth : Nat) (total t : Int) : window depth total t ⊆ span t depth :=
  Finset.image_subset_image (Finset.range_mono (by omega))

/-- A read takes the first timestep of the window, and `schedule_next` adds one at its end. -/
theorem lookAhead_cons_subset {depth : Nat} {total : Int} {past : List Int} (hdepth : 1 ≤ depth)
    (ht : IsInt64 t)
    (hfound : found depth total t past (lookAhead depth total past) ⊆ span t depth) :
    lookAhead depth total (t :: past) ⊆ span (t + 1) depth := by
  have hmove : ∀ k : Nat, i64 (t + 1 + (k : Int)) = i64 (t + ((k + 1 : Nat) : Int)) := fun k => by
    rw [Nat.cast_add_one, add_assoc, add_comm (1 : Int)]
  have hnext : i64 (t + depth) ∈ span (t + 1) depth := by
    refine mem_span.mpr ⟨depth - 1, by omega, ?_⟩
    rw [hmove, Nat.sub_add_cancel hdepth]
  have hleft : (found depth total t past (lookAhead depth total past)).erase t ⊆
      span (t + 1) depth := by
    intro t' ht'
    obtain ⟨hne, ht'⟩ := Finset.mem_erase.mp ht'
    obtain ⟨k, hk, rfl⟩ := mem_span.mp (hfound ht')
    -- the first timestep of the window is the one that was read
    cases k with
    | zero => exact absurd (by rw [Nat.cast_zero, add_zero, i64_of_isInt64 ht]) hne
    | succ k => exact mem_span.mpr ⟨k, by omega, (hmove k).symm⟩
  rw [lookAhead]
  split
  · exact Finset.insert_subset hnext hleft
  · exact hleft

/-- **What a read in order finds open is the window that it begins**, also where the window goes
beyond the last timestep that the machine can count. -/
theorem found_subset {depth : Nat} {total : Int} {past : List Int} (hdepth : 1 ≤ depth)
    (hseq : (t :: past).IsChain fun later earlier => later = earlier + 1)
    (hmachine : ∀ t' ∈ past, IsInt64 t') :
    found depth total t past (lookAhead depth total past) ⊆ span t depth := by
  induction past generalizing t with
  | nil => exact window_subset depth total t
  | cons earlier past ih =>
    obtain ⟨rfl, hrest⟩ := List.isChain_cons_cons.mp hseq
    have hbefore := ih hrest fun t' ht' => hmachine t' (List.mem_cons_of_mem _ ht')
    exact lookAhead_cons_subset hdepth (hmachine earlier List.mem_cons_self) hbefore

/-- The timesteps that the host has asked for, the latest first. -/
def requested (s : Reader) : List Int :=
  match s.phase with
  | .reading t => t :: s.past
  | .idle | .advancing _ => s.past

/-- The host reads consecutive timesteps. -/
def Consecutive (s : Reader) : Prop :=
  s.requested.IsChain fun later earlier => later = earlier + 1

/-- A timestep for the depth, for every read and for the one under way. -/
theorem card_opened_le (depth : Nat) (total : Int) (past : List Int) (phase : ReaderPhase) :
    (opened depth total past phase).card ≤ depth + past.length + 1 := by
  have hahead := card_lookAhead_le depth total past
  cases phase with
  | idle | advancing t => exact hahead.trans (Nat.le_succ _)
  | reading t =>
    refine (Finset.card_insert_le _ _).trans (Nat.succ_le_succ ?_)
    rw [found]
    split
    · exact (card_window_le depth total t).trans (Nat.le_add_right _ _)
    · exact hahead

/-- The host asks for timesteps that the machine can count. -/
theorem requested_isInt64 (h : system.Reachable s) : ∀ t ∈ s.requested, IsInt64 t := by
  refine h.invariant (I := fun s => ∀ t ∈ s.requested, IsInt64 t) ?_ ?_
  · rintro s ⟨-, hpast, hphase⟩
    simp only [requested, hphase, hpast]
    exact nofun
  · intro s op s' hs _ hstep
    cases op with
    -- only a read asks for a new timestep, and it is an `int64_t`
    | read t bbox =>
      obtain ⟨hphase, ht, mode, -, rfl⟩ := step_read hstep
      simp only [requested, hphase] at hs
      exact List.forall_mem_cons.mpr ⟨ht, hs⟩
    | advance =>
      simp only [system, Reader.step] at hstep
      split at hstep
      · next hphase hpc =>
        obtain ⟨mode, -, rfl⟩ := Option.map_eq_some_iff.mp hstep
        simpa only [requested, hphase] using hs
      · cases hstep
    | finish =>
      simp only [system, Reader.step] at hstep
      split at hstep
      · next hphase hpc =>
        obtain rfl := Option.some.inj hstep
        simpa only [requested, hphase] using hs
      · cases hstep
    | run op =>
      cases op with
      | begin | cancel => cases hstep
      | call | submit | expire | fetch | release | shutdown | other =>
        obtain ⟨mode, -, rfl⟩ := Option.map_eq_some_iff.mp hstep
        exact hs

/-- Reads one after the other keep no more open than the depth. -/
theorem card_opened_of_consecutive {depth : Nat} (total : Int) (hdepth : 1 ≤ depth)
    (hseq : s.Consecutive) (hmachine : ∀ t ∈ s.requested, IsInt64 t) :
    (opened depth total s.past s.phase).card ≤ depth := by
  -- after reads of consecutive timesteps the window is the last one, ahead of the last read
  have hahead : ∀ {past : List Int},
      (past.IsChain fun later earlier => later = earlier + 1) → (∀ t ∈ past, IsInt64 t) →
      (lookAhead depth total past).card ≤ depth := by
    intro past hchain hpast
    cases past with
    | nil => exact Nat.zero_le _
    | cons t past =>
      obtain ⟨ht, hpast⟩ := List.forall_mem_cons.mp hpast
      have hfound : found depth total t past (lookAhead depth total past) ⊆ span t depth :=
        found_subset hdepth hchain hpast
      have hsub := lookAhead_cons_subset hdepth ht hfound
      exact (Finset.card_le_card hsub).trans (card_span_le _ _)
  unfold Consecutive at hseq
  unfold requested at hseq hmachine
  cases hphase : s.phase with
  | idle | advancing t =>
    simp only [hphase] at hseq hmachine
    exact hahead hseq hmachine
  -- while a timestep is read, it and the window before it are within one span
  | reading t =>
    simp only [hphase] at hseq hmachine
    obtain ⟨ht, hpast⟩ := List.forall_mem_cons.mp hmachine
    have hself : t ∈ span t depth :=
      mem_span.mpr ⟨0, hdepth, by rw [Nat.cast_zero, add_zero, i64_of_isInt64 ht]⟩
    have hsub : opened depth total s.past (.reading t) ⊆ span t depth :=
      Finset.insert_subset hself (found_subset hdepth hseq hpast)
    exact (Finset.card_le_card hsub).trans (card_span_le t depth)

/-- What the queue holds is open. -/
theorem memory_le (hb : Books s.mode.run) (h : Reading s.mode.run s.past s.phase) :
    s.memory ≤ (opened s.mode.run.stage.queue.depth s.mode.run.stage.queue.totalTimesteps s.past
      s.phase).card := by
  have hkeys : s.mode.run.stage.queue.completed.keys.toFinset.card =
      s.mode.run.stage.queue.completed.entries.length := by
    rw [List.toFinset_card_of_nodup (AList.keys_nodup _)]
    exact List.length_map _
  have hmem : ∀ t, t ∈ s.mode.run.stage.queue.completed.keys.toFinset ↔
      s.mode.run.stage.queue.completed.lookup t ≠ none := by
    intro t
    rw [List.mem_toFinset, Ne, AList.lookup_eq_none, not_not]
    exact AList.mem_keys.symm
  -- no timestep is staged and pending at once
  have hdisjoint : Disjoint s.mode.run.stage.queue.completed.keys.toFinset
      s.mode.run.stage.queue.pending := by
    rw [Finset.disjoint_left]
    exact fun t ht => hb.not_pending ((hmem t).mp ht)
  calc s.memory = (s.mode.run.stage.queue.completed.keys.toFinset ∪
        s.mode.run.stage.queue.pending).card := by
        rw [Finset.card_union_of_disjoint hdisjoint, hkeys, memory]
    _ ≤ _ := by
        refine Finset.card_le_card fun t ht => h.within t ?_
        rcases Finset.mem_union.mp ht with ht | ht
        · exact .inr ((hmem t).mp ht)
        · exact .inl ht

/-- **The memory of the look-ahead.** However the host goes through the record, the staged buffers
and the pending fetches are no more than the timesteps that its reads have opened and that it has
not read since; these are at most `depth + 1` and the number of its reads, and consecutive reads
stay below `2 * depth + 1`. -/
theorem look_ahead_bounded (h : system.Reachable s) :
    let q := s.mode.run.stage.queue
    s.memory ≤ (opened q.depth q.totalTimesteps s.past s.phase).card ∧
    (opened q.depth q.totalTimesteps s.past s.phase).card ≤ q.depth + s.past.length + 1 ∧
    (s.Consecutive → s.memory ≤ 2 * q.depth + 1) := by
  have hreading := Reading.of_reachable h
  have hbooks : Books s.mode.run := .of_reach (mode_reachable h)
  have hmemory := memory_le hbooks hreading
  refine ⟨hmemory, card_opened_le _ _ _ _, fun hseq => ?_⟩
  have hopened := card_opened_of_consecutive s.mode.run.stage.queue.totalTimesteps hreading.depth
    hseq (requested_isInt64 h)
  omega

/-! ### Two ways through a record -/

/-- Eight buffers of eight bytes. -/
def eightArgs : PoolArgs :=
  { PoolRun.pairArgs with
    bufferCount := 8
    maxBufferCount := 8
    count_range := by decide
    max_ge := by decide
    max_le := by decide }

/-- A record of a hundred timesteps, read with depth `1`. -/
def longRecord : Reader where
  mode := ⟨false, .start 1 1 [118] ⟨some .u8, ⟨1, fun _ => 2, fun _ => 0⟩, 100⟩ eightArgs,
    fun _ => none⟩
  past := []
  phase := .idle

theorem longRecord_init : system.init longRecord :=
  ⟨⟨⟨_, _, _, _, _, rfl⟩, fun _ => rfl⟩, rfl, rfl⟩

/-- Call `c` of `schedule_next`, and fetch `f` that it submits, after a read. -/
def advanceOps (c f : Nat) : List ReaderOp :=
  let ops : List ReadOp := [.call c, .call c, .submit c false] ++ fetchOps f [1, 2]
  .advance :: ops.map .run ++ [.finish]

/-- The `i`-th read, of a timestep `t` that is not staged; the buffer is released at once. -/
def readOps (i : Nat) (t : Int) : List ReaderOp :=
  let ops : List ReadOp := [.call (2 * i), .call (2 * i), .submit (2 * i) false] ++
    fetchOps (2 * i) [1, 2] ++ [.call (2 * i), .release (2 * i)]
  .read t none :: ops.map .run ++ advanceOps (2 * i + 1) (2 * i + 1)

/-- The first two timesteps; the second one is staged when it is read. -/
def consecutiveOps : List ReaderOp :=
  readOps 0 0 ++ [.read 1 none, .run (.call 2), .run (.release 2)] ++ advanceOps 3 2

theorem look_ahead_bounded_of_consecutive :
    ∃ s, system.replay (fun _ _ => True) longRecord consecutiveOps = some s ∧ s.past = [1, 0] ∧
      s.memory = 1 ∧ s.memory ≤ 2 * s.mode.run.stage.queue.depth + 1 := by
  have hrun : ((system.replay (fun _ _ => True) longRecord consecutiveOps).map fun s =>
      (s.past, s.phase, s.memory)) = some ([1, 0], .idle, 1) := by decide +kernel
  obtain ⟨s, hreplay, hobs⟩ := Option.map_eq_some_iff.mp hrun
  simp only [Prod.mk.injEq] at hobs
  obtain ⟨hpast, hphase, hmemory⟩ := hobs
  refine ⟨s, hreplay, hpast, hmemory, ?_⟩
  refine (look_ahead_bounded (.of_replay consecutiveOps longRecord_init hreplay)).2.2 ?_
  rw [Consecutive, requested, hphase, hpast]
  exact .cons_cons rfl (.singleton _)

/-- Every tenth timestep. -/
def stridedOps : List ReaderOp := readOps 0 0 ++ readOps 1 10 ++ readOps 2 20 ++ readOps 3 30

/-- Four reads with a stride leave four buffers that nobody asks for. -/
theorem strided_reads_accumulate :
    ∃ s, system.replay (fun _ _ => True) longRecord stridedOps = some s ∧ system.Reachable s ∧
      s.past = [30, 20, 10, 0] ∧ s.phase = .idle ∧ s.mode.run.stage.queue.depth = 1 ∧
      s.mode.run.stage.queue.completed.entries.length = 4 ∧
      2 * s.mode.run.stage.queue.depth + 1 < s.memory := by
  have hrun : ((system.replay (fun _ _ => True) longRecord stridedOps).map fun s =>
      (s.past, s.phase, s.mode.run.stage.queue.depth,
        s.mode.run.stage.queue.completed.entries.length, s.memory)) =
      some ([30, 20, 10, 0], .idle, 1, 4, 4) := by decide +kernel
  obtain ⟨s, hreplay, hobs⟩ := Option.map_eq_some_iff.mp hrun
  simp only [Prod.mk.injEq] at hobs
  obtain ⟨hpast, hphase, hdepth, hheld, hmemory⟩ := hobs
  refine ⟨s, hreplay, .of_replay stridedOps longRecord_init hreplay, hpast, hphase, hdepth, hheld,
    ?_⟩
  rw [hdepth, hmemory]
  decide

end Reader

end Amio
