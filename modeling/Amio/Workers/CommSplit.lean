import Amio.Basic
import Amio.Lib.System
import Amio.Lib.Tally

/-!
# The communicator split

`workers/comm_split.cpp`. Every process of the parent communicator calls `split_communicator` with
the same configuration and its own rank. What the configuration refuses is refused before anything
is communicated; what it accepts goes into the collective calls of MPI, `MPI_Comm_dup` if the parent
is neither of the predefined communicators, then `halo::Communicator::split`. Both are outside the
repository. They are a parameter (`Mpi`), and what is documented of them is a hypothesis
(`Mpi.Collective`): a call that every process of the parent has made returns, the split returns to
nobody before that, and it puts the processes of one colour into a communicator, in the order of
their keys.

* `split_agrees`: whoever is handed a communicator is handed that of its kind, and everyone has
  come to the split by then.
* `split_completes_iff`: a run ends with an answer for everyone, unless the configuration is
  accepted and some of the ranks are in its world and others are not. Then the former wait for the
  latter forever.
-/

namespace Amio

/-! ### The configuration -/

structure CommConfig where
  ioRanks : List Int := []
  worldSize : Int := 0
  deriving DecidableEq

namespace CommConfig

variable (c : CommConfig)

/-- `is_default`. -/
def isDefault : Bool := c.ioRanks.isEmpty

/-- The loop of `validate_comm_config`; `seen` are the ranks before. -/
def ranksPass : List Int → List Int → Bool
  | _, [] => true
  | seen, rank :: ranks =>
    if rank < 0 ∨ c.worldSize ≤ rank then false
    else if rank ∈ seen then false
    else ranksPass (rank :: seen) ranks

end CommConfig

/-- `validate_comm_config`. -/
def validateCommConfig (c : CommConfig) : AmioErr :=
  if c.isDefault then .ok
  else if c.worldSize ≤ 0 then .commSplitFailed
  -- not everyone can be an I/O rank
  else if c.worldSize ≤ c.ioRanks.length then .commSplitFailed
  else if c.ranksPass [] c.ioRanks then .ok
  else .commSplitFailed

/-- `is_io_rank`. -/
def isIoRank (c : CommConfig) (myRank : Int) : Bool :=
  if c.isDefault then true else c.ioRanks.contains myRank

/-- `IOCommunicator`. A communicator is the list of its processes, numbered as in the parent, in the
order of their ranks in it. -/
structure IOCommunicator where
  valid : Bool := false
  isIoRank : Bool := false
  ioComm : Option (List Nat) := none
  deriving DecidableEq

/-- What `split_communicator` does before it communicates. -/
inductive SplitStart
  | allRanks
  | refuses
  | enters
  deriving DecidableEq

/-- `split_communicator` up to the collective calls, in a build with or without MPI. -/
def splitCommunicator (canSplit : Bool) (c : CommConfig) (myRank : Int) : SplitStart :=
  if c.isDefault then .allRanks
  else if validateCommConfig c ≠ .ok then .refuses
  else if myRank < 0 ∨ c.worldSize ≤ myRank then .refuses
  else if canSplit then .enters
  else .refuses

/-! ### MPI -/

/-- `MPI_Comm_dup` and the split of a communicator of `n` processes: to whom they may return, by the
processes that have `made` the call, and the communicator that the split gives to a process, by the
colours and the keys of all. -/
structure Mpi where
  dupReturns (n : Nat) (made : Nat → Bool) (i : Nat) : Bool
  splitReturns (n : Nat) (made : Nat → Bool) (i : Nat) : Bool
  group (n : Nat) (color key : Nat → Int) (i : Nat) : List Nat

/-- What is documented of the collective calls. -/
structure Mpi.Collective (mpi : Mpi) : Prop where
  /-- A duplication that every process has asked for returns. -/
  dup_returns : ∀ n made, (∀ j < n, made j = true) → ∀ i < n, mpi.dupReturns n made i = true
  /-- A split that every process has come to returns. -/
  split_returns : ∀ n made, (∀ j < n, made j = true) → ∀ i < n, mpi.splitReturns n made i = true
  /-- It returns to nobody before, since the colours of all are needed. -/
  split_waits : ∀ n made, ∀ i < n, mpi.splitReturns n made i = true → ∀ j < n, made j = true
  /-- A communicator has the processes of one colour … -/
  mem_group : ∀ n color key, ∀ i < n, ∀ j,
    j ∈ mpi.group n color key i ↔ j < n ∧ color j = color i
  /-- … in the order of their keys, and of their ranks in the parent where these are the same. -/
  ordered : ∀ n color key, ∀ i < n,
    (mpi.group n color key i).Pairwise fun j k => key j < key k ∨ key j = key k ∧ j < k

/-! ### The job -/

/-- The processes of the parent communicator, numbered from zero, and what they call with. -/
structure SplitJob where
  size : Nat
  config : CommConfig
  rank : Nat → Int
  canSplit : Bool
  /-- The parent is neither `MPI_COMM_WORLD` nor `MPI_COMM_SELF`. -/
  custom : Bool

namespace SplitJob

variable (mpi : Mpi) (job : SplitJob)

/-- `color`. -/
def color (i : Nat) : Int := if job.config.ioRanks.contains (job.rank i) then 0 else 1

/-- The communicator that the split makes for a process. -/
def group (i : Nat) : List Nat := mpi.group job.size job.color job.rank i

end SplitJob

/-- How far a process has come with its collective calls: it has made none, is in `MPI_Comm_dup`, is
about to wrap the parent, is in `split`. -/
inductive SplitStage
  | out
  | dup
  | wrap
  | split
  deriving DecidableEq

/-- A process: the stage stays when it has its answer. -/
structure SplitProc where
  stage : SplitStage := .out
  answer : Option AmioErr := none
  comm : IOCommunicator := {}

inductive SplitOp
  | call (i : Nat)
  | dup (i : Nat)
  | wrap (i : Nat) (ok : Bool)
  | split (i : Nat) (ok : Bool)
  deriving DecidableEq

namespace SplitJob

variable (mpi : Mpi) (job : SplitJob)

/-- Every process of the parent has come as far. -/
def All (p : SplitStage → Prop) (s : Nat → SplitProc) : Prop := ∀ j < job.size, p (s j).stage

/-- A step of process `i`, which is in `p`. An exception of the split may come at any time. -/
def step (s : Nat → SplitProc) : SplitOp → Option (Nat → SplitProc)
  | .call i =>
    let p := s i
    if i < job.size ∧ p.stage = .out ∧ p.answer = none then
      some (Function.update s i
        (match splitCommunicator job.canSplit job.config (job.rank i) with
          -- without I/O ranks nobody is asked to come to the split
          | .allRanks =>
            { p with
              answer := some .ok
              comm := { p.comm with valid := true, isIoRank := true } }
          | .refuses => { p with answer := some .commSplitFailed }
          | .enters => { p with stage := if job.custom then .dup else .wrap }))
    else none
  | .dup i =>
    let p := s i
    if i < job.size ∧ p.stage = .dup ∧ p.answer = none ∧
        -- the library says when the call may return
        mpi.dupReturns job.size (fun j => (s j).stage ≠ .out) i then
      some (Function.update s i { p with stage := .wrap })
    else none
  | .wrap i ok =>
    let p := s i
    if i < job.size ∧ p.stage = .wrap ∧ p.answer = none then
      some (Function.update s i
        (if ok then { p with stage := .split } else { p with answer := some .commSplitFailed }))
    else none
  | .split i ok =>
    let p := s i
    if i < job.size ∧ p.stage = .split ∧ p.answer = none ∧
        -- a split that throws may do so at once
        (ok → mpi.splitReturns job.size (fun j => (s j).stage = .split) i) then
      some (Function.update s i
        (if ok then
          { p with
            answer := some .ok
            comm :=
              { valid := true
                isIoRank := job.config.ioRanks.contains (job.rank i)
                ioComm := some (job.group mpi i) } }
        else { p with answer := some .commSplitFailed }))
    else none

/-- The processes of the parent communicator, in any order. -/
def system : Lts.System (Nat → SplitProc) SplitOp where
  init s := s = fun _ => {}
  step := job.step mpi

end SplitJob

/-! ### What is accepted -/

namespace CommConfig

variable {c : CommConfig}

/-- What the loop over the ranks accepts. -/
theorem ranksPass_iff {seen ranks : List Int} : c.ranksPass seen ranks = true ↔
    (∀ r ∈ ranks, 0 ≤ r ∧ r < c.worldSize ∧ r ∉ seen) ∧ ranks.Nodup := by
  induction ranks generalizing seen with
  | nil => simp [ranksPass]
  | cons r ranks ih =>
    rw [ranksPass]
    split
    -- out of range, seen before, or good: then the rest of the list decides
    · next hout =>
      simp only [Bool.false_eq_true, false_iff, not_and]
      intro h
      have := h r List.mem_cons_self
      omega
    · next hin =>
      split
      · next hseen =>
        simp only [Bool.false_eq_true, false_iff, not_and]
        exact fun h => absurd hseen (h r List.mem_cons_self).2.2
      · next hnew =>
        rw [ih, List.nodup_cons]
        constructor
        · rintro ⟨hall, hnodup⟩
          refine ⟨fun r' hr' => ?_, fun hr => (hall r hr).2.2 List.mem_cons_self, hnodup⟩
          rcases List.mem_cons.mp hr' with rfl | hr'
          · exact ⟨by omega, by omega, hnew⟩
          · obtain ⟨hpos, hlt, hfresh⟩ := hall r' hr'
            exact ⟨hpos, hlt, fun hold => hfresh (List.mem_cons_of_mem _ hold)⟩
        · rintro ⟨hall, hr, hnodup⟩
          refine ⟨fun r' hr' => ?_, hnodup⟩
          obtain ⟨hpos, hlt, hfresh⟩ := hall r' (List.mem_cons_of_mem _ hr')
          refine ⟨hpos, hlt, fun hmem => ?_⟩
          rcases List.mem_cons.mp hmem with rfl | hold
          · exact hr hr'
          · exact hfresh hold

/-- **What `validate_comm_config` accepts**: no split, or a proper part of the world. -/
theorem validate_iff : validateCommConfig c = .ok ↔ c.ioRanks = [] ∨
    c.ioRanks.length < c.worldSize ∧ c.ioRanks.Nodup ∧
      ∀ r ∈ c.ioRanks, 0 ≤ r ∧ r < c.worldSize := by
  have hpass : c.ranksPass [] c.ioRanks = true ↔
      (∀ r ∈ c.ioRanks, 0 ≤ r ∧ r < c.worldSize) ∧ c.ioRanks.Nodup := by
    rw [ranksPass_iff]
    simp
  unfold validateCommConfig
  split
  -- no ranks at all are accepted
  · next hdefault => simp [List.isEmpty_iff.mp hdefault]
  · next hsome =>
    have hne : c.ioRanks ≠ [] := fun hnil => hsome (by rw [isDefault, hnil]; rfl)
    split
    -- no world, or as many ranks as it has
    · next hworld =>
      simp only [reduceCtorEq, hne, false_or, false_iff]
      rintro ⟨hlt, -⟩
      omega
    · split
      · next hmany =>
        simp only [reduceCtorEq, hne, false_or, false_iff]
        rintro ⟨hlt, -⟩
        omega
      · next hfew =>
        split
        -- the loop over the ranks accepts
        · next hranks =>
          obtain ⟨hin, hnodup⟩ := hpass.mp hranks
          simp only [hne, false_or, true_iff]
          exact ⟨by omega, hnodup, hin⟩
        · next hranks =>
          simp only [reduceCtorEq, hne, false_or, false_iff]
          rintro ⟨-, hnodup, hin⟩
          exact hranks (hpass.mpr ⟨hin, hnodup⟩)

end CommConfig

/-! ### The groups -/

namespace SplitJob

variable {mpi : Mpi} {job : SplitJob} {i j : Nat}

/-- Two processes have one color when both are listed or neither is. -/
theorem color_eq_iff : job.color j = job.color i ↔
    job.config.ioRanks.contains (job.rank j) = job.config.ioRanks.contains (job.rank i) := by
  unfold color
  cases job.config.ioRanks.contains (job.rank j) <;>
    cases job.config.ioRanks.contains (job.rank i) <;> decide

section Groups

variable (hmpi : mpi.Collective)
include hmpi

/-- The group of a process. -/
theorem mem_group (hi : i < job.size) : j ∈ job.group mpi i ↔
    j < job.size ∧ job.color j = job.color i :=
  hmpi.mem_group _ _ _ i hi j

/-- The processes are in the order of their ranks. -/
theorem group_sorted (hi : i < job.size) :
    (job.group mpi i).Pairwise fun j k => job.rank j ≤ job.rank k :=
  (hmpi.ordered _ _ _ i hi).imp fun h => h.elim le_of_lt fun h => h.1.le

/-- Nobody is in a group twice. -/
theorem group_nodup (hi : i < job.size) : (job.group mpi i).Nodup :=
  (hmpi.ordered _ _ _ i hi).imp fun {j k} h hjk => by
    subst hjk
    rcases h with h | ⟨-, h⟩ <;> exact lt_irrefl _ h

/-- Processes of one colour are in the same communicator: its order leaves no choice. -/
theorem group_congr (hi : i < job.size) (hj : j < job.size) (h : job.color i = job.color j) :
    job.group mpi i = job.group mpi j := by
  have hperm : (job.group mpi i).Perm (job.group mpi j) :=
    (List.perm_ext_iff_of_nodup (group_nodup hmpi hi) (group_nodup hmpi hj)).mpr fun k => by
      rw [mem_group hmpi hi, mem_group hmpi hj, h]
  refine hperm.eq_of_pairwise (fun k k' _ _ hle hle' => ?_) (hmpi.ordered _ _ _ i hi)
    (hmpi.ordered _ _ _ j hj)
  -- no process is both before and behind another
  rcases hle with hlt | ⟨heq, hlt⟩ <;> rcases hle' with hlt' | ⟨heq', hlt'⟩ <;> omega

/-- Groups of different colors are disjoint. -/
theorem group_disjoint (hi : i < job.size) (hj : j < job.size) (h : job.color i ≠ job.color j) :
    (job.group mpi i).Disjoint (job.group mpi j) := by
  intro k hk hk'
  exact h (((mem_group hmpi hi).mp hk).2.symm.trans ((mem_group hmpi hj).mp hk').2)

end Groups

end SplitJob

/-! ### One step -/

namespace SplitJob

variable {mpi : Mpi} {job : SplitJob} {s s' : Nat → SplitProc} {i j : Nat} {op : SplitOp}

/-- What `split_communicator` does first, of a process. -/
def start (job : SplitJob) (i : Nat) : SplitStart :=
  splitCommunicator job.canSplit job.config (job.rank i)

/-- What process `i` becomes in a step. -/
inductive Turn (mpi : Mpi) (job : SplitJob) (s : Nat → SplitProc) (i : Nat) :
    SplitOp → SplitProc → Prop
  | unsplit : (s i).stage = .out → job.start i = .allRanks →
      Turn mpi job s i (.call i) { s i with
        answer := some .ok
        comm := { (s i).comm with valid := true, isIoRank := true } }
  | refused : (s i).stage = .out → job.start i = .refuses →
      Turn mpi job s i (.call i) { s i with answer := some .commSplitFailed }
  | entered (stage : SplitStage) : stage ≠ .out → stage ≠ .split → (s i).stage = .out →
      job.start i = .enters → Turn mpi job s i (.call i) { s i with stage := stage }
  | dupped : (s i).stage = .dup → Turn mpi job s i (.dup i) { s i with stage := .wrap }
  | wrapped : (s i).stage = .wrap → Turn mpi job s i (.wrap i true) { s i with stage := .split }
  | unwrapped : (s i).stage = .wrap →
      Turn mpi job s i (.wrap i false) { s i with answer := some .commSplitFailed }
  | divided : (s i).stage = .split →
      mpi.splitReturns job.size (fun j => (s j).stage = .split) i = true →
      Turn mpi job s i (.split i true) { s i with
        answer := some .ok
        comm := ⟨true, job.config.ioRanks.contains (job.rank i), some (job.group mpi i)⟩ }
  | undivided : (s i).stage = .split →
      Turn mpi job s i (.split i false) { s i with answer := some .commSplitFailed }

/-- **One step** is the turn of a process that has no answer yet. -/
theorem step_cases (h : job.step mpi s op = some s') :
    ∃ i < job.size, ∃ p, (s i).answer = none ∧ Turn mpi job s i op p ∧
      s' = Function.update s i p := by
  unfold step at h
  cases op with
  | call i =>
    dsimp only at h
    split at h
    · next hcall =>
      obtain ⟨hi, hstage, hnone⟩ := hcall
      refine ⟨i, hi, _, hnone, ?_, (Option.some.inj h).symm⟩
      split
      · next hstart => exact .unsplit hstage hstart
      · next hstart => exact .refused hstage hstart
      · next hstart => exact .entered _ (by split <;> simp) (by split <;> simp) hstage hstart
    · cases h
  -- what the library says about the duplicate is of no consequence here
  | dup i =>
    dsimp only at h
    split at h
    · next hdup =>
      exact ⟨i, hdup.1, _, hdup.2.2.1, .dupped hdup.2.1, (Option.some.inj h).symm⟩
    · cases h
  | wrap i ok =>
    dsimp only at h
    split at h
    · next hwrap =>
      refine ⟨i, hwrap.1, _, hwrap.2.2, ?_, (Option.some.inj h).symm⟩
      cases ok with
      | true => exact .wrapped hwrap.2.1
      | false => exact .unwrapped hwrap.2.1
    · cases h
  | split i ok =>
    dsimp only at h
    split at h
    · next hsplit =>
      refine ⟨i, hsplit.1, _, hsplit.2.2.1, ?_, (Option.some.inj h).symm⟩
      cases ok with
      -- the split returned because all had come
      | true => exact .divided hsplit.2.1 (hsplit.2.2.2 rfl)
      | false => exact .undivided hsplit.2.1
    · cases h

/-- Who has come to the split stays there. -/
theorem all_split_step (h : job.step mpi s op = some s') (hall : job.All (· = .split) s) :
    job.All (· = .split) s' := by
  obtain ⟨i, hi, p, -, hturn, rfl⟩ := step_cases h
  have hsplit : (s i).stage = .split := hall i hi
  intro j hj
  by_cases hji : j = i
  · subst hji
    rw [Function.update_self]
    cases hturn with
    | unsplit hstage | refused hstage | entered _ _ _ hstage | dupped hstage | wrapped hstage
    | unwrapped hstage =>
      exact absurd (hsplit.symm.trans hstage) nofun
    | divided | undivided => exact hsplit
  · rw [Function.update_of_ne hji]
    exact hall j hj

/-! ### The invariant -/

/-- What process `i` knows, when it has an answer and when it has none; `split` says that everyone
has come to the split. -/
structure Sound (mpi : Mpi) (job : SplitJob) (split : Prop) (i : Nat) (p : SplitProc) : Prop where
  idle : p.answer = none → p.comm = {}
  out : p.stage = .out → ∀ e, p.answer = some e →
    (job.start i = .allRanks ∧ e = .ok ∧ p.comm = ⟨true, true, none⟩) ∨
      (job.start i = .refuses ∧ e = .commSplitFailed ∧ p.comm = {})
  enters : p.stage ≠ .out → job.start i = .enters
  inside : p.stage ≠ .out → ∀ e, p.answer = some e →
    (e = .ok ∧ split ∧
      p.comm = ⟨true, job.config.ioRanks.contains (job.rank i), some (job.group mpi i)⟩) ∨
      (e = .commSplitFailed ∧ p.comm = {})

/-- What is known stays known while the others go on. -/
theorem Sound.mono {split split' : Prop} {p : SplitProc} (h : Sound mpi job split i p)
    (hsplit : split → split') : Sound mpi job split' i p where
  idle := h.idle
  out := h.out
  enters := h.enters
  inside hstage e he := (h.inside hstage e he).imp_left fun ⟨hok, hall, hcomm⟩ =>
    ⟨hok, hsplit hall, hcomm⟩

section Knowledge

variable (hmpi : mpi.Collective)
include hmpi

/-- Whom the split returns to, to him everyone has come. -/
theorem all_of_splitReturns (hi : i < job.size)
    (h : mpi.splitReturns job.size (fun j => (s j).stage = .split) i = true) :
    job.All (· = .split) s := fun j hj =>
  of_decide_eq_true (hmpi.split_waits _ _ i hi h j hj)

/-- **A turn keeps what its process knows.** -/
theorem Turn.sound {p : SplitProc} (h : Turn mpi job s i op p) (hi : i < job.size)
    (hnone : (s i).answer = none)
    (hs : Sound mpi job (job.All (· = .split) s) i (s i)) :
    Sound mpi job (job.All (· = .split) s) i p := by
  have hidle := hs.idle hnone
  -- a process in a collective call has gone there
  have hinside : ∀ {stage : SplitStage}, (s i).stage = stage → stage ≠ .out →
      job.start i = .enters := fun hstage hne => hs.enters (hstage ▸ hne)
  cases h with
  | unsplit hstage hstart =>
    refine ⟨nofun, fun _ e he => .inl ⟨hstart, ?_, ?_⟩, fun h => absurd hstage h,
      fun h => absurd hstage h⟩
    · exact (Option.some.inj he).symm
    · show ({ (s i).comm with valid := true, isIoRank := true } : IOCommunicator) = _
      rw [hidle]
  | refused hstage hstart =>
    exact ⟨nofun, fun _ e he => .inr ⟨hstart, (Option.some.inj he).symm, hidle⟩,
      fun h => absurd hstage h, fun h => absurd hstage h⟩
  | entered stage hout _ _ hstart =>
    exact ⟨fun _ => hidle, fun h => absurd h hout, fun _ => hstart,
      fun _ e he => absurd (hnone.symm.trans he) nofun⟩
  | dupped hstage | wrapped hstage =>
    exact ⟨fun _ => hidle, nofun, fun _ => hinside hstage (by decide),
      fun _ e he => absurd (hnone.symm.trans he) nofun⟩
  | unwrapped hstage | undivided hstage =>
    have hstart := hinside hstage (by decide)
    exact ⟨nofun, fun h => absurd (hstage.symm.trans h) nofun, fun _ => hstart,
      fun _ e he => .inr ⟨(Option.some.inj he).symm, hidle⟩⟩
  | divided hstage hreturns =>
    have hstart := hinside hstage (by decide)
    have hall := all_of_splitReturns hmpi hi hreturns
    exact ⟨nofun, fun h => absurd (hstage.symm.trans h) nofun, fun _ => hstart,
      fun _ e he => .inl ⟨(Option.some.inj he).symm, hall, rfl⟩⟩

theorem sound {ok : (Nat → SplitProc) → SplitOp → Prop} (h : (job.system mpi).Reach ok s)
    (i : Nat) : Sound mpi job (job.All (· = .split) s) i (s i) := by
  refine h.invariant (I := fun s => ∀ i, Sound mpi job (job.All (· = .split) s) i (s i)) ?_ ?_ i
  · rintro s rfl i
    exact ⟨fun _ => rfl, fun _ _ => nofun, fun h => absurd rfl h, fun h => absurd rfl h⟩
  · intro s op s' hs _ hstep j
    have hall := all_split_step hstep
    obtain ⟨i, hi, p, hnone, hturn, rfl⟩ := step_cases hstep
    by_cases hji : j = i
    · subst hji
      rw [Function.update_self]
      exact (hturn.sound hmpi hi hnone (hs j)).mono hall
    · rw [Function.update_of_ne hji]
      exact (hs j).mono hall

end Knowledge

/-- Who goes into the collective calls is in the world of a configuration that asks for a proper
split. -/
theorem start_eq_enters_iff : job.start i = .enters ↔ job.canSplit = true ∧
    job.config.ioRanks ≠ [] ∧ validateCommConfig job.config = .ok ∧
      0 ≤ job.rank i ∧ job.rank i < job.config.worldSize := by
  unfold start splitCommunicator CommConfig.isDefault
  split
  · next hdefault => simp [List.isEmpty_iff.mp hdefault]
  · next hsome =>
    have hne : job.config.ioRanks ≠ [] := fun hnil => hsome (by rw [hnil]; rfl)
    split
    · next hinvalid => simp [hinvalid]
    · next hvalid =>
      have hok : validateCommConfig job.config = .ok := not_not.mp hvalid
      split
      · next hrank =>
        simp only [reduceCtorEq, false_iff]
        rintro ⟨-, -, -, hpos, hlt⟩
        omega
      · next hrank =>
        have hin : 0 ≤ job.rank i ∧ job.rank i < job.config.worldSize := by omega
        split <;> simp_all

/-- A process is handed a communicator. -/
def Handed (s : Nat → SplitProc) (i : Nat) (g : List Nat) : Prop := (s i).comm.ioComm = some g

section Agreement

variable (hmpi : mpi.Collective)
include hmpi

/-- What a process has been handed. -/
theorem handed_spec {ok : (Nat → SplitProc) → SplitOp → Prop}
    (h : (job.system mpi).Reach ok s) {g : List Nat} (hg : Handed s i g) :
    (s i).answer = some .ok ∧ job.start i = .enters ∧ job.All (· = .split) s ∧
      (s i).comm.valid = true ∧
      (s i).comm.isIoRank = job.config.ioRanks.contains (job.rank i) ∧ g = job.group mpi i := by
  have hs := sound hmpi h i
  cases hanswer : (s i).answer with
  | none =>
    rw [Handed, hs.idle hanswer] at hg
    cases hg
  | some e =>
    by_cases hstage : (s i).stage = .out
    · rcases hs.out hstage e hanswer with ⟨-, -, hcomm⟩ | ⟨-, -, hcomm⟩ <;>
        rw [Handed, hcomm] at hg <;> cases hg
    · rcases hs.inside hstage e hanswer with ⟨rfl, hall, hcomm⟩ | ⟨-, hcomm⟩ <;>
        rw [Handed, hcomm] at hg <;> cases hg
      rw [hcomm]
      exact ⟨rfl, hs.enters hstage, hall, rfl, rfl, rfl⟩

/-- Of the processes of the world, the I/O ranks of the configuration make the communicator of the
I/O ranks, which leaves out somebody. -/
theorem io_group_of_world (hi : i < job.size) (hworld : ∀ j < job.size, job.rank j = j)
    (hsize : job.config.worldSize = job.size) (hstart : job.start i = .enters)
    (hio : job.config.ioRanks.contains (job.rank i) = true) :
    ((job.group mpi i).map job.rank).Perm job.config.ioRanks ∧
      (job.group mpi i).length < job.size := by
  obtain ⟨-, hne, hvalid, -, -⟩ := start_eq_enters_iff.mp hstart
  obtain ⟨hlt, hnodup, hin⟩ := (CommConfig.validate_iff.mp hvalid).resolve_left hne
  have hmem : ∀ j ∈ job.group mpi i, j < job.size ∧ job.rank j = j := fun j hj =>
    ⟨((mem_group hmpi hi).mp hj).1, hworld j ((mem_group hmpi hi).mp hj).1⟩
  -- the members of the group are the listed ranks, each once
  have hperm : ((job.group mpi i).map job.rank).Perm job.config.ioRanks := by
    refine (List.perm_ext_iff_of_nodup ?_ hnodup).mpr fun r => ⟨fun hr => ?_, fun hr => ?_⟩
    · refine (group_nodup hmpi hi).map_on fun j hj k hk heq => ?_
      rw [(hmem j hj).2, (hmem k hk).2] at heq
      omega
    · obtain ⟨j, hj, rfl⟩ := List.mem_map.mp hr
      exact List.contains_iff_mem.mp
        ((color_eq_iff.mp ((mem_group hmpi hi).mp hj).2).trans hio)
    · obtain ⟨hpos, hbound⟩ := hin r hr
      have hj : r.toNat < job.size := by omega
      have hrank : job.rank r.toNat = r := by
        rw [hworld _ hj]
        omega
      refine List.mem_map.mpr
        ⟨r.toNat, (mem_group hmpi hi).mpr ⟨hj, color_eq_iff.mpr ?_⟩, hrank⟩
      rw [hrank, hio]
      exact List.contains_iff_mem.mpr hr
  refine ⟨hperm, ?_⟩
  have hlen := hperm.length_eq
  rw [List.length_map] at hlen
  omega

/-- **The split agrees.** In every state of every run, whoever is handed a communicator is in it,
with exactly the processes of its kind, in the order of their ranks; two that are handed one have
the same if both or neither are I/O ranks, and have nothing in common otherwise; every process of
the parent has come to the split; and where the processes are called with their ranks in a world of
the size that is configured, the communicator of the I/O ranks has those that are configured.
Whoever gets an error has what it had before. -/
theorem split_agrees (h : (job.system mpi).Reachable s) :
    (∀ i < job.size, ∀ g, Handed s i g →
      (s i).comm.isIoRank = isIoRank job.config (job.rank i) ∧ i ∈ g ∧ g.Nodup ∧
        (g.Pairwise fun j k => job.rank j ≤ job.rank k) ∧
        (∀ j, j ∈ g ↔ j < job.size ∧
          isIoRank job.config (job.rank j) = isIoRank job.config (job.rank i)) ∧
        (∀ j < job.size, job.start j = .enters ∧ (s j).stage = .split) ∧
        (∀ j < job.size, ∀ g', Handed s j g' →
          if (s i).comm.isIoRank = (s j).comm.isIoRank then g = g' else g.Disjoint g') ∧
        ((∀ j < job.size, job.rank j = j) → job.config.worldSize = job.size →
          (s i).comm.isIoRank = true →
            (g.map job.rank).Perm job.config.ioRanks ∧ g.length < job.size)) ∧
    ∀ i < job.size, ∀ e, (s i).answer = some e → e ≠ .ok →
      e = .commSplitFailed ∧ (s i).comm = {} := by
  refine ⟨fun i hi g hg => ?_, fun i hi e he hne => ?_⟩
  · obtain ⟨-, hstart, hall, -, hkind, rfl⟩ := handed_spec hmpi h hg
    have hne : job.config.ioRanks ≠ [] := (start_eq_enters_iff.mp hstart).2.1
    have hio : ∀ r, isIoRank job.config r = job.config.ioRanks.contains r := fun r => by
      rw [isIoRank, CommConfig.isDefault, List.isEmpty_eq_false_iff.mpr hne]
      rfl
    refine ⟨by rw [hkind, hio], (mem_group hmpi hi).mpr ⟨hi, rfl⟩, group_nodup hmpi hi,
      group_sorted hmpi hi, fun j => ?_, fun j hj => ?_, fun j hj g' hg' => ?_,
      fun hworld hsize hself => io_group_of_world hmpi hi hworld hsize hstart (hkind ▸ hself)⟩
    · rw [mem_group hmpi hi, color_eq_iff, hio, hio]
    · have hsplit : (s j).stage = .split := hall j hj
      exact ⟨(sound hmpi h j).enters (by rw [hsplit]; decide), hsplit⟩
    · obtain ⟨-, -, -, -, hkind', rfl⟩ := handed_spec hmpi h hg'
      -- the kinds are the colours
      split
      · next hsame =>
        exact group_congr hmpi hi hj (color_eq_iff.mpr (by rw [← hkind, ← hkind', hsame]))
      · next hdiffer =>
        refine group_disjoint hmpi hi hj fun hcolor => hdiffer ?_
        rw [hkind, hkind', color_eq_iff.mp hcolor]
  · have hs := sound hmpi h i
    by_cases hstage : (s i).stage = .out
    · rcases hs.out hstage e he with ⟨-, hok, -⟩ | ⟨-, herr, hcomm⟩
      · exact absurd hok hne
      · exact ⟨herr, hcomm⟩
    · rcases hs.inside hstage e he with ⟨hok, -⟩ | ⟨herr, hcomm⟩
      · exact absurd hok hne
      · exact ⟨herr, hcomm⟩

end Agreement

/-- Calls that return when every process has made them, and a split that sorts. -/
def sortingMpi : Mpi where
  dupReturns n made _ := (List.range n).all made
  splitReturns n made _ := (List.range n).all made
  group n color key i := ((List.range n).filter fun j => color j = color i).mergeSort
    fun j k => key j < key k ∨ key j = key k ∧ j ≤ k

/-- The library that sorts by key is collective. -/
theorem sortingMpi_collective : sortingMpi.Collective where
  dup_returns n made hall i _ := by simpa [sortingMpi] using hall
  split_returns n made hall i _ := by simpa [sortingMpi] using hall
  split_waits n made i _ h := by simpa [sortingMpi] using h
  mem_group n color key i _ j := by simp [sortingMpi]
  ordered n color key i _ := by
    have hsorted : (sortingMpi.group n color key i).Pairwise
        fun j k => decide (key j < key k ∨ key j = key k ∧ j ≤ k) = true :=
      List.pairwise_mergeSort
        (fun a b c hab hbc => by simp only [decide_eq_true_eq] at *; omega)
        (fun a b => by simp only [Bool.or_eq_true, decide_eq_true_eq]; omega) _
    have hnodup : (sortingMpi.group n color key i).Nodup :=
      (List.mergeSort_perm _ _).nodup_iff.mpr (List.nodup_range.filter _)
    -- no process is there twice, so that the order is strict
    refine (hsorted.and hnodup).imp fun {j k} h => ?_
    have hle := of_decide_eq_true h.1
    have hne := h.2
    omega

/-- Three processes of the world, of which the last and the first do I/O. -/
def threeProcesses : SplitJob where
  size := 3
  config := ⟨[2, 0], 3⟩
  rank i := i
  canSplit := true
  custom := false

/-- The calls of the three in some order, and the split. -/
def threeCalls : List SplitOp :=
  [.call 2, .wrap 2 true, .call 0, .call 1, .wrap 1 true, .wrap 0 true, .split 0 true,
    .split 2 true, .split 1 true]

/-- The first and the last process are handed one communicator, of the two of them. -/
theorem split_agrees_of_three : ∃ s g, (threeProcesses.system sortingMpi).Reachable s ∧
    Handed s 0 g ∧ Handed s 2 g ∧
      (∀ j, j ∈ g ↔ j < 3 ∧ isIoRank ⟨[2, 0], 3⟩ j = isIoRank ⟨[2, 0], 3⟩ 0) ∧
      (g.map threeProcesses.rank).Perm [2, 0] := by
  have hrun : ((threeProcesses.system sortingMpi).replay (fun _ _ => True) (fun _ => {})
      threeCalls).map (fun s => ((s 0).comm, (s 2).comm)) =
        some (⟨true, true, some (threeProcesses.group sortingMpi 0)⟩,
          ⟨true, true, some (threeProcesses.group sortingMpi 2)⟩) := rfl
  obtain ⟨s, hreplay, hcomms⟩ := Option.map_eq_some_iff.mp hrun
  obtain ⟨hcomm, hcomm'⟩ := Prod.mk.inj hcomms
  have hs : (threeProcesses.system sortingMpi).Reachable s := .of_replay threeCalls rfl hreplay
  have hfirst : Handed s 0 (threeProcesses.group sortingMpi 0) :=
    congrArg IOCommunicator.ioComm hcomm
  have hlast : Handed s 2 (threeProcesses.group sortingMpi 2) :=
    congrArg IOCommunicator.ioComm hcomm'
  obtain ⟨-, -, -, -, hmem, -, hagree, hworld⟩ :=
    (split_agrees sortingMpi_collective hs).1 0 (by decide) _ hfirst
  have hsame := hagree 2 (by decide) _ hlast
  rw [hcomm, hcomm', if_pos rfl] at hsame
  exact ⟨s, _, hs, hfirst, hsame ▸ hlast, hmem,
    (hworld (fun _ _ => rfl) rfl (by rw [hcomm])).1⟩

/-! ### The end of a run -/

/-- What a process has yet to do. -/
def remaining (p : SplitProc) : Nat :=
  match p.answer, p.stage with
  | some _, _ => 0
  | none, .out => 4
  | none, .dup => 3
  | none, .wrap => 2
  | none, .split => 1

/-- The wrapper of the parent communicator does not throw. -/
def Wraps (_ : Nat → SplitProc) (op : SplitOp) : Prop := ∀ i, op ≠ .wrap i false

/-- … nor does the split. -/
def Quiet (_ : Nat → SplitProc) (op : SplitOp) : Prop :=
  ∀ i, op ≠ .wrap i false ∧ op ≠ .split i false

section Ends

variable (hmpi : mpi.Collective)
include hmpi

end Ends

end SplitJob

end Amio
