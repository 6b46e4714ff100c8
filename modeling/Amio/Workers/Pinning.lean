import Amio.Lib.RangeText
import Amio.Lib.System
import Amio.Lib.Tally
import Amio.Workers.Order
import Mathlib.Data.Finset.Card

/-!
# Pinning the workers

`workers/thread_pinning.cpp`, and `worker_loop_pinned` of the pool. A thread may be asked to run on
a list of CPUs or on those of a NUMA domain, which are read from a text of the kernel
(`getNumaDomainCpus_write`). The threads of a pool pin themselves, each before its first task and
in any order, and the pool counts those that could not.

Whatever the order, a thread in its loop runs exactly on the CPUs that were asked for, or, if they
cannot be had, on those of the thread that made the pool (`bound_as_asked`). What
`validate_thread_config` looks at beforehand is less: of a domain, only whether it has CPUs.
`errors_of_validated` says which threads it lets through that cannot be pinned.
-/

namespace Amio

open RangeText

/-! ### Configurations -/

structure ThreadConfig where
  cpuCores : List Int := []
  numaDomain : Int := -1
  deriving DecidableEq

def ThreadConfig.isDefault (config : ThreadConfig) : Bool :=
  config.cpuCores.isEmpty && decide (config.numaDomain < 0)

/-- `CPU_SETSIZE`. -/
def cpuSetSize : Int := 1024

/-- What the program is built for and runs on: whether there is `pthread_setaffinity_np`, whether
`sched_getaffinity` succeeds, the texts of the files, and the CPUs that a thread which asks for a
set of them is bound to, if it is. -/
structure Platform where
  hasPthreadAffinity : Bool
  queries : Bool
  file : String → Option (List Char)
  setAffinity : Finset Int → Option (Finset Int)

namespace Platform

variable (p : Platform)

/-- `validate_cpu_cores`, by a thread that may run on the CPUs `available`. -/
def validateCpuCores (available : Finset Int) (cores : List Int) : Bool :=
  if cores.isEmpty then true
  else if !p.queries then false
  else cores.all fun core =>
    decide (0 ≤ core) && decide (core < cpuSetSize) && decide (core ∈ available)

/-- The integers from `first` to `last`. Counting beyond the largest `int` is undefined. -/
def counted (first last : Int) : Outcome StoiError (List Int) := do
  Outcome.expect (first ≤ last → last < 2 ^ 31 - 1)
  return (List.range (last + 1 - first).toNat).map fun i : Nat => first + i

/-- The CPUs of one piece of a CPU list. -/
def parsePiece (token : List Char) : Outcome StoiError (List Int) :=
  if '-' ∈ token then do
    let first ← stoi (token.takeWhile (· ≠ '-'))
    let last ← stoi (token.dropWhile (· ≠ '-')).tail
    counted first last
  else do
    let cpu ← stoi token
    return [cpu]

def parsePieces : List (List Char) → Outcome StoiError (List Int)
  | [] => return []
  | token :: rest => do
    let cpus ← parsePiece token
    let more ← parsePieces rest
    return cpus ++ more

def cpulistPath (domain : Int) : String :=
  "/sys/devices/system/node/node" ++ toString domain ++ "/cpulist"

/-- `get_numa_domain_cpus`. -/
def getNumaDomainCpus (domain : Int) : Outcome StoiError (List Int) :=
  if domain < 0 then .done []
  else
    match p.file (cpulistPath domain) with
    | none | some [] => .done []
    | some content => parsePieces (pieces ',' (content.takeWhile (· ≠ '\n')))

/-- `pin_to_cores`: the result, and the CPUs that the thread may run on afterwards. -/
def pinToCores (available : Finset Int) (cores : List Int) : AmioErr × Finset Int :=
  if !p.validateCpuCores available cores then (.invalidBinding, available)
  else
    match p.setAffinity cores.toFinset with
    | none => (.invalidBinding, available)
    | some bound => (.ok, bound)

/-- `apply_thread_pinning`. -/
def applyThreadPinning (available : Finset Int) (config : ThreadConfig) :
    Outcome StoiError (AmioErr × Finset Int) :=
  if config.isDefault then .done (.ok, available)
  else if !p.hasPthreadAffinity then .done (.invalidBinding, available)
  -- listed cores go before the domain
  else if !config.cpuCores.isEmpty then .done (p.pinToCores available config.cpuCores)
  else if 0 ≤ config.numaDomain then do
    let domainCpus ← p.getNumaDomainCpus config.numaDomain
    -- a domain that sysfs does not know
    if domainCpus.isEmpty then return (.invalidBinding, available)
    return p.pinToCores available domainCpus
  else .done (.ok, available)

/-- `validate_thread_config`. -/
def validateThreadConfig (available : Finset Int) (config : ThreadConfig) :
    Outcome StoiError AmioErr :=
  if config.isDefault then .done .ok
  else if !p.hasPthreadAffinity then .done .invalidBinding
  else if !config.cpuCores.isEmpty then
    .done (if !p.validateCpuCores available config.cpuCores then .invalidBinding else .ok)
  else if 0 ≤ config.numaDomain then do
    let domainCpus ← p.getNumaDomainCpus config.numaDomain
    if domainCpus.isEmpty then return .invalidBinding
    return .ok
  else .done .ok

/-! ### The list of a domain -/

/-- The loop counts the members of a range. -/
theorem counted_members {first last : Nat} (h : last < 2 ^ 31 - 1) :
    counted first last = .done (((Segment.range first last).members).map (↑)) := by
  have hlen : ((last : Int) + 1 - first).toNat = last + 1 - first := by omega
  rw [counted, Outcome.expect, if_pos (by omega)]
  simp only [Outcome.done_bind, Outcome.pure_eq, hlen, Segment.members, List.map_map]
  exact congrArg _ (List.map_congr_left fun k _ => (Nat.cast_add first k).symm)

/-- A piece is read back. -/
theorem parsePiece_write {segment : Segment} (h : segment.Below (2 ^ 31 - 1)) :
    parsePiece segment.write = .done (segment.members.map (↑)) := by
  cases segment with
  | number n =>
    have hn : n < 2 ^ 31 := Nat.lt_of_lt_of_le h (by decide)
    rw [parsePiece, Segment.write, if_neg (dash_not_mem_repr n), stoi_repr hn]
    rfl
  | range first last =>
    obtain ⟨hfirst, hlast⟩ := h
    -- no digit is a dash, so the first dash is the one between the numbers
    have hspan := Strtod.span_of_stops (p := fun c => decide (c ≠ '-'))
      (d := (Nat.repr first).toList) (r := '-' :: (Nat.repr last).toList)
      (fun c hc => decide_eq_true (ne_of_mem_of_not_mem hc (dash_not_mem_repr first)))
      (fun c hc => by simpa using (Option.some.inj hc).symm)
    rw [parsePiece, Segment.write, if_pos (by simp), hspan.1, hspan.2,
      stoi_repr (Nat.lt_of_lt_of_le hfirst (by decide)), List.tail_cons,
      stoi_repr (Nat.lt_of_lt_of_le hlast (by decide)), Outcome.done_bind, Outcome.done_bind,
      counted_members hlast]

theorem parsePieces_write {segments : List Segment}
    (h : ∀ segment ∈ segments, segment.Below (2 ^ 31 - 1)) :
    parsePieces (segments.map Segment.write) =
      .done ((segments.flatMap Segment.members).map (↑)) := by
  induction segments with
  | nil => rfl
  | cons segment segments ih =>
    rw [List.map_cons, parsePieces, parsePiece_write (h segment List.mem_cons_self),
      ih fun q hq => h q (List.mem_cons_of_mem _ hq), List.flatMap_cons, List.map_append]
    rfl

/-- A list is one line. -/
theorem newline_not_mem_write (segments : List Segment) : '\n' ∉ write segments := by
  intro h
  rcases of_mem_write h with h | h | h <;> exact absurd h (by decide)

/-- **The CPUs of a domain are read as they were written**: from the line of a list of numbers and
ranges, exactly the numbers of its segments, in the order of the segments. -/
theorem getNumaDomainCpus_write {domain : Int} {segments : List Segment} {rest : List Char}
    (hdomain : 0 ≤ domain) (hbelow : ∀ segment ∈ segments, segment.Below (2 ^ 31 - 1))
    (hfile : p.file (cpulistPath domain) = some (write segments ++ '\n' :: rest)) :
    p.getNumaDomainCpus domain = .done ((segments.flatMap Segment.members).map (↑)) := by
  have hline : (write segments ++ '\n' :: rest).takeWhile (· ≠ '\n') = write segments :=
    (Strtod.span_of_stops (fun c hc => decide_eq_true (ne_of_mem_of_not_mem hc
      (newline_not_mem_write segments))) fun c hc => by simpa using (Option.some.inj hc).symm).1
  rw [getNumaDomainCpus, if_neg (by omega), hfile]
  split
  · next heq => cases heq
  · next heq => simp at heq
  · next content _ heq =>
    obtain rfl := Option.some.inj heq
    rw [hline, pieces_write, parsePieces_write hbelow]

/-- Three of the CPUs of a machine of two nodes; the second node has CPUs 2 and 3. -/
def twoNodes : Platform where
  hasPthreadAffinity := true
  queries := true
  file _ := some "2-3\n".toList
  setAffinity cpus := if (cpus ∩ {0, 1, 2}).Nonempty then some (cpus ∩ {0, 1, 2}) else none

theorem getNumaDomainCpus_write_of_node : twoNodes.getNumaDomainCpus 1 = .done [2, 3] := by
  have hfile : twoNodes.file (cpulistPath 1) = some (write [.range 2 3] ++ '\n' :: []) := rfl
  have hbelow : ∀ segment ∈ [Segment.range 2 3], segment.Below (2 ^ 31 - 1) := by
    intro segment hmem
    obtain rfl := List.mem_singleton.mp hmem
    exact ⟨by decide, by decide⟩
  exact getNumaDomainCpus_write twoNodes (by decide) hbelow hfile

/-! ### What a configuration comes to -/

/-- The CPUs that a configuration asks for. A list of cores takes precedence over a domain; where
threads cannot be bound, nothing is looked up. -/
def requested (config : ThreadConfig) : Outcome StoiError (List Int) :=
  if !p.hasPthreadAffinity then .done []
  else if config.cpuCores.isEmpty then p.getNumaDomainCpus config.numaDomain
  else .done config.cpuCores

/-- All of `cpus` are CPUs that a thread may run on, as far as can be told. -/
def Within (available : Finset Int) (cpus : List Int) : Prop :=
  p.queries = true ∧ ∀ c ∈ cpus, 0 ≤ c ∧ c < cpuSetSize ∧ c ∈ available

instance (available : Finset Int) (cpus : List Int) : Decidable (p.Within available cpus) :=
  inferInstanceAs (Decidable (_ ∧ _))

/-- The CPUs to which a thread that may run on `available` can be pinned, as `config` asks. -/
def grantable (available : Finset Int) (config : ThreadConfig) : Option (List Int) :=
  match p.requested config with
  | .done cpus => if cpus ≠ [] ∧ p.Within available cpus then some cpus else none
  | _ => none

/-- Where the thread runs after the call. -/
def target (available : Finset Int) (config : ThreadConfig) : Finset Int :=
  ((p.grantable available config).map List.toFinset).getD available

def refused (available : Finset Int) (config : ThreadConfig) : Bool :=
  !config.isDefault && (p.grantable available config).isNone

/-- A domain is asked for that has CPUs, but not only such as the thread may run on. -/
def escapes (available : Finset Int) (config : ThreadConfig) : Bool :=
  config.cpuCores.isEmpty &&
    match p.requested config with
    | .done cpus => decide (cpus ≠ [] ∧ ¬ p.Within available cpus)
    | _ => false

/-- What the system promises a thread that may run on `available`: any part of these CPUs, and
exactly it. -/
def BindsWithin (available : Finset Int) : Prop :=
  ∀ cpus ⊆ available, cpus.Nonempty → p.setAffinity cpus = some cpus

variable {p} {available : Finset Int} {config : ThreadConfig}

theorem validateCpuCores_eq {cores : List Int} (hne : cores ≠ []) :
    p.validateCpuCores available cores = decide (p.Within available cores) := by
  rw [validateCpuCores, if_neg (by simpa using hne), Bool.eq_iff_iff, decide_eq_true_iff, Within]
  cases p.queries <;> simp [and_assoc]

/-- A thread is bound to the cores that it may use, or left alone. -/
theorem pinToCores_eq (hbinds : p.BindsWithin available) {cores : List Int} (hne : cores ≠ []) :
    p.pinToCores available cores =
      if p.Within available cores then (.ok, cores.toFinset) else (.invalidBinding, available) := by
  by_cases hwithin : p.Within available cores
  · have hpart : cores.toFinset ⊆ available :=
      fun c hc => (hwithin.2 c (List.mem_toFinset.mp hc)).2.2
    have hbound := hbinds cores.toFinset hpart (List.toFinset_nonempty_iff cores |>.mpr hne)
    rw [pinToCores, validateCpuCores_eq hne, if_neg (by simp [hwithin]), hbound, if_pos hwithin]
  · rw [pinToCores, validateCpuCores_eq hne, if_pos (by simp [hwithin]), if_neg hwithin]

/-- The default configuration asks for no CPUs. -/
theorem requested_of_isDefault (h : config.isDefault = true) : p.requested config = .done [] := by
  obtain ⟨hcores, hdomain⟩ := Bool.and_eq_true_iff.mp h
  rw [requested, hcores, getNumaDomainCpus, if_pos (of_decide_eq_true hdomain)]
  cases p.hasPthreadAffinity <;> rfl

/-- The CPUs of a domain. -/
theorem requested_of_domain (haffinity : p.hasPthreadAffinity = true)
    (hcores : config.cpuCores.isEmpty = true) :
    p.requested config = p.getNumaDomainCpus config.numaDomain := by
  rw [requested, haffinity, if_neg (by simp), if_pos hcores]

/-- The cores that are listed. -/
theorem requested_of_cores (haffinity : p.hasPthreadAffinity = true)
    (hcores : ¬ config.cpuCores.isEmpty = true) : p.requested config = .done config.cpuCores := by
  rw [requested, haffinity, if_neg (by simp), if_neg hcores]

/-- Without cores, a configuration that is not the default one asks for a domain. -/
theorem numaDomain_nonneg (hdefault : config.isDefault = false)
    (hcores : config.cpuCores.isEmpty = true) : 0 ≤ config.numaDomain := by
  simp only [ThreadConfig.isDefault, hcores, Bool.true_and] at hdefault
  exact not_lt.mp (of_decide_eq_false hdefault)

/-- What is done when the request is for `cpus`, and `pin_to_cores` is called unless there are
none. -/
theorem settle (hbinds : p.BindsWithin available) {cpus : List Int}
    (hdefault : config.isDefault = false) (h : p.requested config = .done cpus) :
    (if cpus.isEmpty then (AmioErr.invalidBinding, available) else p.pinToCores available cpus) =
      (if p.refused available config then .invalidBinding else .ok, p.target available config) := by
  have hgrantable : p.grantable available config =
      if cpus ≠ [] ∧ p.Within available cpus then some cpus else none := by rw [grantable, h]
  rw [refused, target, hgrantable, hdefault]
  by_cases hne : cpus = []
  · subst hne
    simp
  · rw [if_neg (by simpa using hne), pinToCores_eq hbinds hne]
    by_cases hwithin : p.Within available cpus <;> simp [hne, hwithin]

/-- **What pinning a thread comes to**: the CPUs that are asked for are looked up, and the thread
runs on them or stays where it is. -/
theorem applyThreadPinning_eq (hbinds : p.BindsWithin available) (config : ThreadConfig) :
    p.applyThreadPinning available config = (p.requested config >>= fun _ =>
      .done (if p.refused available config then .invalidBinding else .ok,
        p.target available config)) := by
  by_cases hdefault : config.isDefault = true
  · -- nothing is asked for, and nothing refused
    have hrequested := requested_of_isDefault (p := p) hdefault
    have hgrantable : p.grantable available config = none := by simp [grantable, hrequested]
    rw [applyThreadPinning, if_pos hdefault, hrequested, Outcome.done_bind, refused, target,
      hgrantable, hdefault]
    rfl
  · have hdefault : config.isDefault = false := by simpa using hdefault
    rw [applyThreadPinning, if_neg (by simp [hdefault])]
    -- then: no affinity on this platform, listed cores, or a domain
    by_cases haffinity : p.hasPthreadAffinity = true
    · rw [if_neg (by simp [haffinity])]
      by_cases hcores : config.cpuCores.isEmpty = true
      · have hrequested := requested_of_domain haffinity hcores
        rw [if_neg (by simp [hcores]), if_pos (numaDomain_nonneg hdefault hcores), hrequested]
        cases hlist : p.getNumaDomainCpus config.numaDomain with
        | done cpus =>
          rw [hlist] at hrequested
          simp only [Outcome.done_bind, Outcome.pure_eq, ← settle hbinds hdefault hrequested]
          split <;> rfl
        | threw e => rfl
        | undefined => rfl
      · have hrequested := requested_of_cores haffinity hcores
        rw [if_pos (by simp [hcores]), hrequested, Outcome.done_bind,
          ← settle hbinds hdefault hrequested, if_neg hcores]
    · have hrequested : p.requested config = .done [] := by simp [requested, haffinity]
      rw [if_pos (by simp [haffinity]), hrequested, Outcome.done_bind,
        ← settle hbinds hdefault hrequested]
      rfl

/-- A configuration that is validated can be looked up, and if it cannot be had all the same, it is
for a domain. -/
theorem of_validated (h : p.validateThreadConfig available config = .done .ok) :
    (∃ cpus, p.requested config = .done cpus) ∧
      p.refused available config = p.escapes available config := by
  by_cases hdefault : config.isDefault = true
  · have hrequested := requested_of_isDefault (p := p) hdefault
    exact ⟨⟨_, hrequested⟩, by simp [refused, escapes, hdefault, hrequested]⟩
  have hdefault : config.isDefault = false := by simpa using hdefault
  rw [validateThreadConfig, if_neg (by simp [hdefault])] at h
  by_cases haffinity : p.hasPthreadAffinity = true
  · rw [if_neg (by simp [haffinity])] at h
    by_cases hcores : config.cpuCores.isEmpty = true
    · rw [if_neg (by simp [hcores]), if_pos (numaDomain_nonneg hdefault hcores),
        ← requested_of_domain haffinity hcores] at h
      cases hlist : p.requested config with
      | done cpus =>
        have hne : cpus ≠ [] := by
          rintro rfl
          simp [hlist] at h
        -- of a domain, no more is known than that it has CPUs
        refine ⟨⟨cpus, rfl⟩, ?_⟩
        by_cases hwithin : p.Within available cpus <;>
          simp [refused, escapes, grantable, hdefault, hcores, hlist, hne, hwithin]
      | threw e => simp [hlist] at h
      | undefined => simp [hlist] at h
    · have hrequested := requested_of_cores haffinity hcores
      have hne : config.cpuCores ≠ [] := fun hnil => hcores (by rw [hnil]; rfl)
      rw [if_pos (by simp [hcores]), validateCpuCores_eq hne] at h
      -- a list of cores is compared with `available`, so it is granted
      have hwithin : p.Within available config.cpuCores := by
        by_contra hout
        simp [hout] at h
      exact ⟨⟨_, hrequested⟩, by simp [refused, escapes, grantable, hrequested, hne, hwithin]⟩
  · simp [haffinity] at h

end Platform

/-! ### The threads of a pool -/

/-- The pool while its threads start. `affinity` has the CPUs that each may run on, and `inLoop`
says whether it is past its pinning; `terminated` is set when an exception leaves a thread. -/
structure PinRun (α : Type) where
  platform : Platform
  threadConfigs : List ThreadConfig
  run : WorkerRun α
  inLoop : Nat → Bool
  affinity : Nat → Finset Int
  pinningErrors : Nat
  terminated : Bool

inductive PinOp (α : Type)
  | enter (w : Nat)
  | pool (op : WorkerOp α)

namespace PinRun

variable {α : Type} (s : PinRun α)

/-- `worker_loop_pinned`, up to the loop. -/
def enter (w : Nat) : Option (PinRun α) :=
  if w < s.run.pool.threadCount ∧ s.inLoop w = false then
    match s.threadConfigs[w]? with
    -- a thread without a configuration of its own is not bound
    | none => some { s with inLoop := Function.update s.inLoop w true }
    | some tc =>
      match s.platform.applyThreadPinning (s.affinity w) tc with
      | .done (pinRc, bound) =>
        some { s with
          inLoop := Function.update s.inLoop w true
          affinity := Function.update s.affinity w bound
          -- an error is counted, and the thread runs all the same
          pinningErrors := if pinRc ≠ .ok then s.pinningErrors + 1 else s.pinningErrors }
      -- nobody catches what `stoi` throws
      | .threw _ => some { s with terminated := true }
      | .undefined => none
  else none

/-- A worker takes tasks in its loop only. -/
def isFree : WorkerOp α → Bool
  | .turn w _ | .advance w => s.inLoop w
  | _ => true

def step (op : PinOp α) : Option (PinRun α) :=
  if s.terminated then none
  else
    match op with
    | .enter w => s.enter w
    | .pool op =>
      if s.isFree op then (s.run.step op).map fun run => { s with run := run } else none

/-- A pool whose threads have not begun, made by a thread that may run on `available`. -/
def start (α : Type) (p : Platform) (threadConfigs : List ThreadConfig) (threadCount : Nat)
    (backpressure : BackpressureConfig) (available : Finset Int) : PinRun α where
  platform := p
  threadConfigs := threadConfigs
  run := .start α threadCount backpressure
  inLoop _ := false
  affinity _ := available
  pinningErrors := 0
  terminated := false

section Runs

variable (α) (p : Platform) (configs : List ThreadConfig) (n : Nat) (available : Finset Int)

def system : Lts.System (PinRun α) (PinOp α) where
  init s := ∃ bp, s = start α p configs n bp available
  step := step

/-- The configuration of a thread; without one, it is not pinned. -/
def configOf (configs : List ThreadConfig) (w : Nat) : ThreadConfig := configs[w]?.getD {}

/-- The threads in their loops that count as pinning errors. -/
def failures (inLoop : Nat → Bool) : Finset Nat :=
  (Finset.range n).filter fun w =>
    inLoop w = true ∧ p.refused available (configOf configs w) = true

variable {α}

/-- The invariant. -/
structure Placed (s : PinRun α) : Prop where
  platform : s.platform = p
  threadConfigs : s.threadConfigs = configs
  threadCount : s.run.pool.threadCount = n
  run : (WorkerRun.system α).Reachable s.run
  affinity : ∀ w, s.affinity w =
    if s.inLoop w then p.target available (configOf configs w) else available
  waits : ∀ w, s.inLoop w = false → s.run.pool.worker w = .idle
  errors : s.pinningErrors = (failures p configs n available s.inLoop).card
  ended : s.terminated = true → ∃ w < n, ∃ e, p.requested (configOf configs w) = .threw e

variable {p configs n available} {s s' : PinRun α}

theorem Placed.initial (bp : BackpressureConfig) :
    Placed p configs n available (start α p configs n bp available) where
  platform := rfl
  threadConfigs := rfl
  threadCount := rfl
  run := .init ⟨n, bp, rfl⟩
  affinity _ := rfl
  waits _ _ := rfl
  errors := by simp [failures, start]
  ended h := by cases h

/-- A thread that comes to its loop adds to the failures if it is refused. -/
theorem card_failures_update {inLoop : Nat → Bool} {w : Nat} (hw : w < n)
    (hout : inLoop w = false) :
    (failures p configs n available (Function.update inLoop w true)).card =
      (failures p configs n available inLoop).card +
        if p.refused available (configOf configs w) then 1 else 0 := by
  have hnot : w ∉ failures p configs n available inLoop := fun h => by
    simp [failures, hout] at h
  by_cases hrefused : p.refused available (configOf configs w) = true
  -- a thread that is refused is a new failure
  · have hinsert : failures p configs n available (Function.update inLoop w true) =
        insert w (failures p configs n available inLoop) := by
      ext v
      by_cases hv : v = w
      · subst hv
        simp [failures, hw, hrefused]
      · simp [failures, hv]
    rw [hinsert, Finset.card_insert_of_notMem hnot, if_pos hrefused]
  · have hsame : failures p configs n available (Function.update inLoop w true) =
        failures p configs n available inLoop := by
      ext v
      by_cases hv : v = w
      · subst hv
        simp [failures, hrefused]
      · simp [failures, hv]
    rw [hsame, if_neg hrefused, add_zero]

/-- What a thread without a configuration does is what the default one asks for. -/
theorem settled {w : Nat} (h : configs[w]? = none) :
    p.target available (configOf configs w) = available ∧
      p.refused available (configOf configs w) = false := by
  have hdefault : configOf configs w = {} := by rw [configOf, h]; rfl
  have hrequested : p.requested {} = .done [] := Platform.requested_of_isDefault rfl
  simp [hdefault, Platform.target, Platform.refused, Platform.grantable, hrequested,
    ThreadConfig.isDefault]

/-- A thread comes to its loop. -/
theorem Placed.arrive (h : Placed p configs n available s) {w : Nat} (hw : w < n)
    (hout : s.inLoop w = false) :
    Placed p configs n available { s with
      inLoop := Function.update s.inLoop w true
      affinity := Function.update s.affinity w (p.target available (configOf configs w))
      pinningErrors := s.pinningErrors +
        if p.refused available (configOf configs w) then 1 else 0 } where
  platform := h.platform
  threadConfigs := h.threadConfigs
  threadCount := h.threadCount
  run := h.run
  -- the thread that enters is bound, the others are as they were
  affinity v := by
    by_cases hv : v = w
    · subst hv
      simp
    · simp only [Function.update_of_ne hv]
      exact h.affinity v
  waits v hv := by
    by_cases hvw : v = w
    · subst hvw
      simp at hv
    · exact h.waits v ((Function.update_of_ne hvw ..).symm.trans hv)
  errors := by rw [card_failures_update hw hout, h.errors]
  ended := h.ended

/-- A thread enters its loop. -/
theorem Placed.enter (h : Placed p configs n available s) (hbinds : p.BindsWithin available)
    {w : Nat} (hstep : s.enter w = some s') : Placed p configs n available s' := by
  obtain rfl := h.platform
  obtain rfl := h.threadConfigs
  unfold PinRun.enter at hstep
  split at hstep
  · next hguard =>
    obtain ⟨hw, hout⟩ := hguard
    rw [h.threadCount] at hw
    have hhere : s.affinity w = available := by rw [h.affinity, hout]; rfl
    have harrive := h.arrive hw hout
    rw [hhere] at hstep
    split at hstep
    -- no entry for the thread: it runs where the process runs
    · next hnone =>
      obtain rfl := Option.some.inj hstep
      obtain ⟨htarget, hrefused⟩ :
          s.platform.target available (configOf s.threadConfigs w) = available ∧
            s.platform.refused available (configOf s.threadConfigs w) = false := settled hnone
      have hsame : Function.update s.affinity w available = s.affinity := by
        rw [← hhere, Function.update_eq_self]
      rw [htarget, hrefused, hsame] at harrive
      exact harrive
    -- an entry: the list of CPUs is computed first, which may throw
    · next tc hsome =>
      have hconfig : configOf s.threadConfigs w = tc := by rw [configOf, hsome]; rfl
      rw [Platform.applyThreadPinning_eq hbinds, ← hconfig] at hstep
      cases hlist : s.platform.requested (configOf s.threadConfigs w) with
      | done cpus =>
        rw [hlist] at hstep
        obtain rfl := Option.some.inj hstep
        have herrors : (if (if s.platform.refused available (configOf s.threadConfigs w) then
            AmioErr.invalidBinding else .ok) ≠ .ok then s.pinningErrors + 1
              else s.pinningErrors) = s.pinningErrors +
                if s.platform.refused available (configOf s.threadConfigs w) then 1 else 0 := by
          cases s.platform.refused available (configOf s.threadConfigs w) <;> rfl
        rw [herrors]
        exact harrive
      | threw e =>
        rw [hlist] at hstep
        obtain rfl := Option.some.inj hstep
        exact ⟨rfl, rfl, h.threadCount, h.run, h.affinity, h.waits, h.errors,
          fun _ => ⟨w, hw, e, hlist⟩⟩
      | undefined =>
        rw [hlist] at hstep
        cases hstep
  · cases hstep

/-- A step of the pool: a thread that is not in its loop stays idle. -/
theorem Placed.pool (h : Placed p configs n available s) {op : WorkerOp α} {r : WorkerRun α}
    (hfree : s.isFree op = true) (hstep : s.run.step op = some r) :
    Placed p configs n available { s with run := r } :=
  { h with
    threadCount := (WorkerRun.step_frame hstep).1.trans h.threadCount
    run := h.run.step trivial hstep
    waits := fun w hw => by
      have hout : s.inLoop w = false := hw
      have hidle := h.waits w hout
      show r.pool.worker w = .idle
      cases WorkerRun.step_cases hstep with
      -- only a thread that is in its loop takes turns
      | @turns v top _ hturn =>
        obtain ⟨x, hx, -⟩ := WorkerRun.turn_worker top hturn
        have hv : w ≠ v := by
          rintro rfl
          cases hout.symm.trans hfree
        rw [hx, Function.update_of_ne hv, hidle]
      | @advances v _ hadvance =>
        have hv : w ≠ v := by
          rintro rfl
          cases hout.symm.trans hfree
        rw [WorkerRun.advance_worker_of_ne hv hadvance, hidle]
      | _ => rw [WorkerRun.step_worker (by simp) (by simp) hstep, hidle] }

/-- **Every step keeps the threads in their place.** -/
theorem Placed.step (h : Placed p configs n available s) (hbinds : p.BindsWithin available)
    {op : PinOp α} (hstep : s.step op = some s') : Placed p configs n available s' := by
  unfold PinRun.step at hstep
  split at hstep
  · cases hstep
  · cases op with
    | enter w => exact h.enter hbinds hstep
    | pool op =>
      simp only [Option.ite_none_right_eq_some, Option.map_eq_some_iff] at hstep
      obtain ⟨hfree, r, hr, rfl⟩ := hstep
      exact h.pool hfree hr

theorem placed (hbinds : p.BindsWithin available)
    (h : (system α p configs n available).Reachable s) : Placed p configs n available s := by
  refine h.invariant (I := Placed p configs n available) ?_
    fun s op s' hs _ hstep => hs.step hbinds hstep
  rintro _ ⟨bp, rfl⟩
  exact .initial bp

/-- **Threads run where they were asked to.** However the threads of a pool start and whatever the
pool does meanwhile: what the workers do is a run of the pool; a thread that holds a task is past
its pinning; past it, a thread may run on exactly the CPUs that its configuration asks for, if it
could run on all of them before, and otherwise on those of the thread that made the pool;
`pinning_errors` counts the threads whose request was refused; and the process ends only over a
list of CPUs that cannot be read. -/
theorem bound_as_asked (hbinds : p.BindsWithin available)
    (h : (system α p configs n available).Reachable s) :
    (WorkerRun.system α).Reachable s.run ∧
    (∀ w, s.run.pool.worker w ≠ .idle → s.inLoop w = true) ∧
    (∀ w, s.affinity w =
      if s.inLoop w then p.target available (configOf configs w) else available) ∧
    s.pinningErrors = ((Finset.range n).filter fun w =>
      s.inLoop w = true ∧ p.refused available (configOf configs w) = true).card ∧
    (s.terminated = true → ∃ w < n, ∃ e, p.requested (configOf configs w) = .threw e) := by
  have hs := placed hbinds h
  refine ⟨hs.run, fun w hw => ?_, hs.affinity, hs.errors, hs.ended⟩
  by_contra hout
  exact hw (hs.waits w (Bool.eq_false_iff.mpr hout))

/-- **What validation misses.** When `validate_thread_config` has accepted every configuration, no
thread ends the process, and `pinning_errors` counts the threads in their loops that ask for a
domain with a CPU outside those of the thread that made the pool. -/
theorem errors_of_validated (hbinds : p.BindsWithin available)
    (hvalid : ∀ config ∈ configs, p.validateThreadConfig available config = .done .ok)
    (h : (system α p configs n available).Reachable s) :
    s.terminated = false ∧
    s.pinningErrors = ((Finset.range n).filter fun w =>
      s.inLoop w = true ∧ p.escapes available (configOf configs w) = true).card := by
  have hs := placed hbinds h
  have hconfig : ∀ w, p.validateThreadConfig available (configOf configs w) = .done .ok := by
    intro w
    unfold configOf
    cases hw : configs[w]? with
    | none => rfl
    | some config => exact hvalid config (List.mem_of_getElem? hw)
  constructor
  -- a configuration that was validated does not make `stoi` throw
  · by_contra hended
    obtain ⟨w, -, e, he⟩ := hs.ended (by simpa using hended)
    obtain ⟨⟨cpus, hcpus⟩, -⟩ := Platform.of_validated (hconfig w)
    rw [hcpus] at he
    cases he
  -- and is refused only if it escapes the validation
  · rw [hs.errors]
    refine congrArg _ (Finset.filter_congr fun w _ => ?_)
    rw [(Platform.of_validated (hconfig w)).2]

end Runs

/-- A thread for two CPUs, and one for the second node. -/
def nodeConfigs : List ThreadConfig := [{ cpuCores := [0, 1] }, { numaDomain := 1 }]

/-- The second thread comes to its loop first, the first one takes a write. -/
def nodeOps : List (PinOp Nat) :=
  [.enter 1, .pool (.enter 0 ⟨⟨1, 1⟩, 7, 10⟩), .pool (.lock 0), .enter 0, .pool (.turn 0 0)]

theorem twoNodes_bindsWithin : Platform.twoNodes.BindsWithin {0, 1, 2} := by
  intro cpus hpart hne
  have hsame : cpus ∩ {0, 1, 2} = cpus := Finset.inter_eq_left.mpr hpart
  show (if (cpus ∩ {0, 1, 2}).Nonempty then some (cpus ∩ {0, 1, 2}) else none) = some cpus
  rw [hsame, if_pos hne]

theorem reachable_of_nodes :
    ∃ s, (system Nat Platform.twoNodes nodeConfigs 2 {0, 1, 2}).Reachable s ∧
      s.inLoop 0 = true ∧ s.inLoop 1 = true ∧ (s.run.pool.worker 0).isIdle = false := by
  have hrun : ((system Nat Platform.twoNodes nodeConfigs 2 {0, 1, 2}).replay (fun _ _ => True)
      (start Nat Platform.twoNodes nodeConfigs 2 {} {0, 1, 2}) nodeOps).map
        (fun s => (s.inLoop 0, s.inLoop 1, (s.run.pool.worker 0).isIdle)) =
          some (true, true, false) := by decide +kernel
  obtain ⟨s, hreplay, hend⟩ := Option.map_eq_some_iff.mp hrun
  simp only [Prod.mk.injEq] at hend
  exact ⟨s, .of_replay nodeOps ⟨{}, rfl⟩ hreplay, hend⟩

/-- The second node has a CPU that the process may not use. -/
theorem bound_as_asked_of_nodes :
    ∃ s, (system Nat Platform.twoNodes nodeConfigs 2 {0, 1, 2}).Reachable s ∧
      (s.run.pool.worker 0).isIdle = false ∧ s.affinity 0 = {0, 1} ∧ s.affinity 1 = {0, 1, 2} ∧
      s.terminated = false := by
  obtain ⟨s, hs, hfirst, hsecond, hbusy⟩ := reachable_of_nodes
  obtain ⟨-, -, haffinity, -, hended⟩ := bound_as_asked twoNodes_bindsWithin hs
  refine ⟨s, hs, hbusy, ?_, ?_, ?_⟩
  · rw [haffinity, hfirst]
    decide
  · rw [haffinity, hsecond]
    decide
  · by_contra hterminated
    obtain ⟨w, hw, e, he⟩ := hended (by simpa using hterminated)
    obtain rfl | rfl : w = 0 ∨ w = 1 := by omega
    · exact absurd he (by rw [show Platform.twoNodes.requested (configOf nodeConfigs 0) =
        .done [0, 1] from rfl]; simp)
    · exact absurd he (by rw [show Platform.twoNodes.requested (configOf nodeConfigs 1) =
        .done [2, 3] from rfl]; simp)

theorem errors_of_validated_of_nodes :
    ∃ s, (system Nat Platform.twoNodes nodeConfigs 2 {0, 1, 2}).Reachable s ∧
      s.terminated = false ∧ s.pinningErrors = 1 := by
  obtain ⟨s, hs, hfirst, hsecond, -⟩ := reachable_of_nodes
  have hvalid : ∀ config ∈ nodeConfigs,
      Platform.twoNodes.validateThreadConfig {0, 1, 2} config = .done .ok := by decide
  obtain ⟨hended, herrors⟩ := errors_of_validated twoNodes_bindsWithin hvalid hs
  refine ⟨s, hs, hended, herrors.trans ?_⟩
  have hcores : Platform.twoNodes.escapes {0, 1, 2} (configOf nodeConfigs 0) = false := by decide
  have hdomain : Platform.twoNodes.escapes {0, 1, 2} (configOf nodeConfigs 1) = true := by decide
  simp [Finset.range_add_one, Finset.filter_insert, hfirst, hsecond, hcores, hdomain]

end PinRun

end Amio
