import Amio.Api.Orderly
import Amio.Api.Finalize

/-!
# The life of a driver

`backend_driver.hpp` documents the calls that a driver is made with: `open`, then the writes or the
reads, `flush`, `close` (`FollowsLifecycle`). Every driver follows its life in an orderly run
(`driver_lifecycle`). Once a driver is flushed by `close_dataset`, nothing of its dataset is still
to reach it, and no step changes that (`Sealed.step`); when `finalize` flushes it, the workers are
gone.
-/

namespace Amio

/-- The life of a driver: what it is asked is a beginning of `open`, writes or reads, `flush` and
`close`. -/
def FollowsLifecycle (calls : List DriverCall) : Prop :=
  (∃ n, calls <+: .openWrite :: (List.replicate n .write ++ [.flush, .close])) ∨
    ∃ body : List DriverCall, (∀ x ∈ body, x = .describe ∨ x = .read) ∧
      calls <+: .openRead :: (body ++ [.flush, .close])

/-- What a driver may be asked between `open` and `flush`. -/
def Mode.allows : Mode → DriverCall → Bool
  | .write, .write => true
  | .read, .describe | .read, .read => true
  | _, _ => false

/-- A prefix of what an open dataset may receive follows the life cycle. -/
theorem FollowsLifecycle.of_mode {mode : Mode} {body calls : List DriverCall}
    (hbody : ∀ x ∈ body, mode.allows x = true)
    (h : calls <+: mode.opening :: (body ++ [.flush, .close])) : FollowsLifecycle calls := by
  cases mode with
  | write =>
    -- a dataset for writing receives writes only
    have hwrites : body = List.replicate body.length .write := by
      refine List.eq_replicate_iff.mpr ⟨rfl, fun x hx => ?_⟩
      have hx := hbody x hx
      cases x <;> first | rfl | cases hx
    rw [hwrites] at h
    exact .inl ⟨_, h⟩
  | read =>
    refine .inr ⟨body, fun x hx => ?_, h⟩
    have hx := hbody x hx
    -- one for reading is described and read
    cases x with
    | describe => exact .inl rfl
    | read => exact .inr rfl
    | _ => cases hx

/-- Nothing comes after an element that is only the last one. -/
theorem eq_nil_of_prefix_concat {α : Type*} {x : α} {a b l : List α}
    (h : a ++ x :: b <+: l ++ [x]) (hl : x ∉ l) : b = [] := by
  obtain ⟨t, ht⟩ := h
  rw [List.append_assoc, List.cons_append] at ht
  rcases List.append_eq_append_iff.mp ht with ⟨u, hu, hv⟩ | ⟨u, hu, hv⟩
  · cases u with
    | nil => exact (List.append_eq_nil_iff.mp (List.cons.inj hv).2).1
    | cons y u =>
      obtain rfl := (List.cons.inj hv).1
      exact absurd (by rw [hu]; simp) hl
  · -- there is only one element left
    have hlength := congrArg List.length hv
    simp only [List.length_cons, List.length_nil, List.length_append] at hlength
    exact List.length_eq_zero_iff.mp (by omega)

/-- No call reaches a driver after `close`. -/
theorem FollowsLifecycle.close_last {calls a b : List DriverCall} (h : FollowsLifecycle calls)
    (hcalls : calls = a ++ .close :: b) : b = [] := by
  subst hcalls
  rcases h with ⟨n, h⟩ | ⟨body, hbody, h⟩
  · have hsplit : DriverCall.openWrite :: (List.replicate n .write ++ [.flush, .close]) =
        (.openWrite :: (List.replicate n .write ++ [.flush])) ++ [.close] := by simp
    rw [hsplit] at h
    exact eq_nil_of_prefix_concat h (by simp [List.mem_replicate])
  · have hsplit : DriverCall.openRead :: (body ++ [.flush, .close]) =
        (.openRead :: (body ++ [.flush])) ++ [.close] := by simp
    rw [hsplit] at h
    refine eq_nil_of_prefix_concat h fun hmem => ?_
    simp only [List.mem_cons, List.mem_append, reduceCtorEq, List.not_mem_nil, or_false,
      false_or] at hmem
    -- no description and no read is a close
    rcases hbody _ hmem with hx | hx
    all_goals cases hx

/-- No write reaches a driver that was opened for reading. -/
theorem FollowsLifecycle.not_write {calls : List DriverCall} (h : FollowsLifecycle calls)
    (hread : .openRead ∈ calls) : .write ∉ calls := by
  intro hwrite
  rcases h with ⟨n, h⟩ | ⟨body, hbody, h⟩
  · have hmem := h.subset hread
    simp [List.mem_replicate] at hmem
  · have hmem := h.subset hwrite
    simp only [List.mem_cons, List.mem_append, reduceCtorEq, List.not_mem_nil, or_false,
      false_or] at hmem
    rcases hbody _ hmem with hx | hx
    all_goals cases hx

namespace Process

variable {s s' : Process} {k d q c : Nat} {op : ApiOp}

/-! ### Nothing is still to reach the driver -/

/-- Nothing of dataset `d` is still to reach its driver. -/
structure Sealed (s : Process) (k d : Nat) : Prop where
  spent : ∀ c, c < (s.io k).writes.ncalls → ((s.io k).writes.calls c).args.dataset = d →
    ((s.io k).writes.calls c).spent = true
  silent : ∀ q, q < (s.cores k).nqueues → s.reads k q = d → ((s.io k).queues q).Silent

/-- Once the host's close has reached its end, nothing more can call the driver. -/
theorem AtClose.sealed (h : s.AtClose k d []) (hreached : s.reached k d = true) :
    s.Sealed k d where
  spent := (reached_iff.mp hreached).1
  silent q hq hread :=
    ⟨h.cancelled q hq hread List.not_mem_nil, (reached_iff.mp hreached).2 q hq hread⟩

/-- A queue after a step was a queue of the same dataset before, or that dataset is being read. -/
theorem Gains.queue_cases (h : Gains s s') (hq : q < (s'.cores k).nqueues) :
    (q < (s.cores k).nqueues ∧ s.reads k q = s'.reads k q) ∨
      (s.call = .idle ∧ s.Holds (.dataset k (s'.reads k q))) := by
  cases h with
  | none same =>
    rw [(same.cores k).2] at hq
    exact .inl ⟨hq, by rw [same.reads]⟩
  | core after =>
    subst after
    by_cases hk : k = s.ncores
    -- a core that is new has no queue yet
    · subst hk
      rw [init_cores_self] at hq
      exact absurd hq (Nat.not_lt_zero q)
    · rw [init_cores hk] at hq
      exact .inl ⟨hq, rfl⟩
  | dataset j mode idle live after =>
    subst after
    rw [(s.openDataset_counts j mode k).2] at hq
    exact .inl ⟨hq, rfl⟩
  | queue j e idle live mode more =>
    rw [more.reads]
    -- only the new queue of a variable is not among the old ones
    by_cases hnew : k = j ∧ q = (s.cores j).nqueues
    · rw [if_pos hnew]
      obtain ⟨rfl, -⟩ := hnew
      exact .inr ⟨idle, live⟩
    · rw [if_neg hnew]
      rw [more.nqueues] at hq
      refine .inl ⟨?_, rfl⟩
      split at hq <;> grind

/-- A queue that has fallen silent stays silent. -/
theorem step_silent (hstep : s.step op = some s') (h : ((s.io k).queues q).Silent) :
    ((s'.io k).queues q).Silent := by
  cases step_inside hstep with
  | still io | observes _ _ _ _ _ io =>
    rw [io]
    exact h
  | moves j iop t step elsewhere =>
    by_cases hj : k = j
    · subst hj
      exact IoRun.step_silent step h
    · rw [elsewhere k hj]
      exact h

/-- **A sealed dataset stays sealed**, when it has no handle. -/
theorem Sealed.step (h : s.Sealed k d) (hisolated : ∀ k, (s.io k).Isolated)
    (hlive : s.call = .idle → ¬ s.Holds (.dataset k d)) (hstep : s.step op = some s') :
    s'.Sealed k d where
  spent c hc hargs := by
    rcases step_calls hisolated hstep hc with
      ⟨hlt, hsame, hspent⟩ | ⟨token, args, region, e, -, idle, found, he, -⟩
    · rw [hsame] at hargs
      exact hspent (h.spent c hlt hargs)
    · obtain rfl := he.symm.trans hargs
      -- a new write needs the handle of the dataset, which the host has given back
      have hheld : s.Holds (.dataset k _) := .of_lookup found
      exact absurd hheld (hlive idle)
  silent q hq hread := by
    rcases (step_turns hstep).gains.queue_cases hq with ⟨hlt, hsame⟩ | ⟨idle, live⟩
    · exact step_silent hstep (h.silent q hlt (hsame.trans hread))
    -- and so does a new queue
    · rw [hread] at live
      exact absurd live (hlive idle)

/-- Only `describe` reaches the driver of a sealed dataset, and only by its handle. -/
theorem Sealed.live_of_asks (h : s.Sealed k d) (hs : LifeInv s) {x : DriverCall}
    (asks : s.Asks k d x) : s.call = .idle ∧ s.Holds (.dataset k d) := by
  cases asks with
  | describe idle live mode => exact ⟨idle, live⟩
  | write w c running run pc args =>
    have hinv := (hs.isolated k).writes.toInv
    have hspent := h.spent c (hinv.past_of_cb (hinv.of_running run)).2 args
    exact Bool.noConfusion (hspent.symm.trans (hinv.not_spent_of_running run pc))
  | read q f running reads lt committed =>
    have huncommitted := (h.silent q (hs.unused.lt lt) reads).uncommitted f lt
    exact Bool.noConfusion (committed.symm.trans huncommitted)

/-! ### What a driver was asked -/

/-- What the driver of dataset `d` was asked since its writes and reads. -/
inductive Tail (s : Process) (k d : Nat) : List DriverCall → Prop
  | running (call : s.call.flushes ≠ some (k, d)) : Tail s k d []
  | flushed (call : s.call.flushes = some (k, d)) (quiet : s.Sealed k d) : Tail s k d [.flush]
  | closed (closed : (s.datasets k d).closed = true) (quiet : s.Sealed k d) :
      Tail s k d [.flush, .close]
  -- `finalize` has come to the dataset
  | torn (ok : Bool) (joined : (s.cores k).joined = true)
      (left : ∀ rest, s.call = .tearing k rest → d ∉ rest) :
      Tail s k d (if ok then [.flush, .close] else [.flush])

def Ordered (s : Process) (k d : Nat) : Prop :=
  ∃ body tail, (s.datasets k d).received =
      (s.datasets k d).mode.opening :: (body ++ tail) ∧
    (∀ x ∈ body, (s.datasets k d).mode.allows x = true) ∧ s.Tail k d tail

variable {tail : List DriverCall}

theorem flushes_eq_some {call : ApiCall} (h : call.flushes = some (k, d)) :
    ∃ r, call = .flushed k d r := by
  cases call with
  | flushed j e r =>
    obtain ⟨rfl, rfl⟩ := Prod.mk.inj (Option.some.inj h)
    exact ⟨r, rfl⟩
  | _ => cases h

/-- The workers of a core are not joined while a call other than `finalize` is at it. -/
theorem LifeInv.not_joined (hs : LifeInv s) (halive : (s.cores k).deleted = false)
    (hcall : ∀ rest, s.call ≠ .tearing k rest) : (s.cores k).joined = false := by
  by_contra hjoined
  rcases hs.ending.joined k (by simpa using hjoined) with hdeleted | ⟨rest, htearing⟩
  · exact Bool.noConfusion (hdeleted.symm.trans halive)
  · exact hcall rest htearing

/-- The threads of a core run as long as a dataset of it has a handle. -/
theorem LifeInv.not_joined_of_live (hs : LifeInv s) (idle : s.call = .idle)
    (live : s.Holds (.dataset k d)) : (s.cores k).joined = false := by
  obtain ⟨-, -, -, halive⟩ := hs.registered.active_of_holds live
  refine hs.not_joined halive fun rest h => ?_
  rw [idle] at h
  cases h

/-- They run as long as a call works on the core, the teardown apart. -/
theorem LifeInv.not_joined_of_home (hs : LifeInv s) (home : s.call.home = some k)
    (hcall : ∀ rest, s.call ≠ .tearing k rest) : (s.cores k).joined = false :=
  hs.not_joined (hs.registered.home k home).2 hcall

/-- A driver that is asked to describe, to write or to read has not been flushed. -/
theorem Tail.running_of_asks (h : s.Tail k d tail) (hs : LifeInv s) {x : DriverCall}
    (asks : s.Asks k d x) : tail = [] ∧ s.call.flushes ≠ some (k, d) := by
  cases h with
  | running call => exact ⟨rfl, call⟩
  -- after the flush or the close nothing is left that could call
  | flushed call quiet =>
    rw [(quiet.live_of_asks hs asks).1] at call
    cases call
  | closed closed quiet =>
    obtain ⟨-, -, hopen, -⟩ := hs.registered.active_of_holds (quiet.live_of_asks hs asks).2
    exact Bool.noConfusion (closed.symm.trans hopen)
  | torn ok joined left =>
    -- and after the teardown the threads are joined
    have hrunning : (s.cores k).joined = false := by
      cases asks with
      | describe idle live => exact hs.not_joined_of_live idle live
      | write w c running => exact running
      | read q f running => exact running
    exact Bool.noConfusion (joined.symm.trans hrunning)

/-- `close_dataset` comes to a driver that has not been flushed. -/
theorem Tail.running_of_closes (h : s.Tail k d tail) (hs : LifeInv s)
    (hcloses : s.call.closes = some (k, d, [])) :
    (tail = [] ∧ s.call.flushes ≠ some (k, d)) ∨
      (tail = [.flush] ∧ s.call.flushes = some (k, d) ∧ s.Sealed k d) := by
  cases h with
  | running call => exact .inl ⟨rfl, call⟩
  | flushed call quiet => exact .inr ⟨rfl, call, quiet⟩
  | closed closed quiet =>
    exact Bool.noConfusion (closed.symm.trans (hs.closing k d [] hcloses).opened)
  | torn ok joined left =>
    -- a close is under way on the core, so that its threads are not joined
    have hcall : s.call.home = some k ∧ ∀ rest, s.call ≠ .tearing k rest := by
      cases hcall : s.call with
      | cancelling | draining | surfacing | closing | flushed =>
        rw [hcall] at hcloses
        obtain ⟨rfl, -⟩ := Prod.mk.inj (Option.some.inj hcloses)
        exact ⟨rfl, by simp⟩
      | _ =>
        rw [hcall] at hcloses
        cases hcloses
    exact Bool.noConfusion (joined.symm.trans (hs.not_joined_of_home hcall.1 hcall.2))

/-- `finalize` comes to a driver that has not been flushed. -/
theorem Tail.nil_of_tears (h : s.Tail k d tail) (hs : LifeInv s) {rest : List Nat}
    (hd : d < (s.cores k).ndatasets) (before : s.call = .tearing k rest) (mem : d ∈ rest) :
    tail = [] := by
  cases h with
  | running => rfl
  | flushed call =>
    rw [before] at call
    cases call
  | closed closed quiet =>
    have hopen := hs.ending.opened k (by rw [before]; rfl) (by rw [before]; rfl) d hd
    exact Bool.noConfusion (closed.symm.trans hopen)
  | torn ok joined left => exact absurd mem (left rest before)

/-- A step that means nothing to the driver. -/
theorem Tail.nothing (h : s.Tail k d tail) (hs : LifeInv s) (hd : d < (s.cores k).ndatasets)
    (hstep : s.step op = some s') (same : (s'.datasets k d).life = (s.datasets k d).life)
    (call : s'.call.flushes = some (k, d) ↔ s.call.flushes = some (k, d)) :
    s'.Tail k d tail := by
  cases h with
  | running h => exact .running (mt call.mp h)
  | flushed h quiet =>
    refine .flushed (call.mpr h) (quiet.step hs.isolated (fun idle => ?_) hstep)
    rw [idle] at h
    cases h
  | closed closed quiet =>
    refine .closed ((congrArg (fun x => x.2.1) same).trans closed)
      (quiet.step hs.isolated (fun _ live => ?_) hstep)
    -- the handle of a closed dataset is released
    obtain ⟨-, -, hopen, -⟩ := hs.registered.active_of_holds live
    exact Bool.noConfusion (closed.symm.trans hopen)
  | torn ok joined left =>
    cases (step_turns hstep).flags k with
    | same joined' deleted call back =>
      refine .torn ok (joined'.trans joined) fun rest' h hmem => ?_
      obtain ⟨rest, hrest, hsub⟩ := back rest' h
      exact left rest hrest (hsub hmem)
    | fresh new =>
      rw [(hs.queued.fresh k new).1] at hd
      exact absurd hd (Nat.not_lt_zero d)
    | joins before =>
      have hrunning := hs.not_joined_of_home (k := k) (by rw [before]; rfl) (by simp [before])
      exact Bool.noConfusion (joined.symm.trans hrunning)
    | destroys joined' deleted after =>
      refine .torn ok (joined'.trans joined) fun rest' h => ?_
      rw [after] at h
      cases h

/-- What a driver may be asked is what its mode allows. -/
theorem Asks.allows {x : DriverCall} (asks : s.Asks k d x) (hs : LifeInv s) :
    (s.datasets k d).mode.allows x = true := by
  cases asks with
  | describe idle live mode =>
    rw [mode]
    rfl
  -- a write in an orderly run is of a dataset for writing
  | write w c running run pc args =>
    have hinv := (hs.isolated k).writes.toInv
    rcases hs.written k c (hinv.past_of_cb (hinv.of_running run)).2 with hspent | ⟨-, hmode⟩
    · exact Bool.noConfusion (hspent.symm.trans (hinv.not_spent_of_running run pc))
    · rw [← args, hmode]
      rfl
  | read q f running reads lt committed =>
    have hq : q < (s.cores k).nqueues := hs.unused.lt lt
    rw [← reads, (hs.queued.queued k q hq).2.1]
    rfl

/-- **One step.** The driver of a dataset stays in order. -/
theorem Ordered.step (h : s.Ordered k d) (hs : LifeInv s) (hs' : LifeInv s')
    (hd : d < (s.cores k).ndatasets) (hok : s.orderly op = true) (hstep : s.step op = some s') :
    s'.Ordered k d := by
  obtain ⟨body, tail, hreceived, hbody, htail⟩ := h
  have hhappens := (step_turns hstep).happens hd
  have hmode := hhappens.mode
  -- the driver is asked `calls`, before which it was asked nothing but reads and writes
  have hmore : ∀ {calls more tail' : List DriverCall}, tail = [] →
      (s'.datasets k d).received = (s.datasets k d).received ++ calls →
      calls = more ++ tail' → (∀ x ∈ more, (s.datasets k d).mode.allows x = true) →
      s'.Tail k d tail' → s'.Ordered k d := by
    rintro calls more tail' rfl heq rfl hmore htail'
    refine ⟨body ++ more, tail', ?_, fun x hx => ?_, htail'⟩
    · rw [heq, hreceived, hmode]
      simp
    · rw [hmode]
      exact (List.mem_append.mp hx).elim (hbody x) (hmore x)
  cases hhappens with
  | nothing same call =>
    refine ⟨body, tail, ?_, fun x hx => ?_, htail.nothing hs hd hstep same call⟩
    · rw [hmode]
      exact (congrArg (fun x => x.2.2) same).trans hreceived
    · rw [hmode]
      exact hbody x hx
  | asked x asks received call =>
    obtain ⟨hnil, hcall⟩ := htail.running_of_asks hs asks
    refine hmore hnil (congrArg (fun x => x.2.2) received) (List.append_nil [x]).symm ?_
      (.running (mt call.mp hcall))
    intro y hy
    obtain rfl := List.mem_singleton.mp hy
    exact asks.allows hs
  | flushed r ok isFlush before received after =>
    have hcloses : s.call.closes = some (k, d, []) := by
      rw [before]
      rfl
    obtain ⟨hnil, -⟩ | ⟨-, hcall, -⟩ := htail.running_of_closes hs hcloses
    · subst isFlush
      simp only [orderly, before] at hok
      have hquiet : s.Sealed k d := (hs.closing k d [] hcloses).sealed hok
      refine hmore hnil (congrArg (fun x => x.2.2) received) (List.nil_append _).symm (by simp)
        (.flushed after (hquiet.step hs.isolated (fun idle => ?_) hstep))
      rw [before] at idle
      cases idle
    · rw [before] at hcall
      cases hcall
  | closed before received =>
    obtain ⟨r, hcall⟩ := flushes_eq_some before
    have hcloses : s.call.closes = some (k, d, []) := by
      rw [hcall]
      rfl
    obtain ⟨-, hnot⟩ | ⟨rfl, -, hquiet⟩ := htail.running_of_closes hs hcloses
    · exact absurd before hnot
    · refine ⟨body, [.flush, .close], ?_, fun x hx => ?_,
        .closed (congrArg (fun x => x.2.1) received)
          (hquiet.step hs.isolated (fun idle => ?_) hstep)⟩
      · rw [hmode]
        refine (congrArg (fun x => x.2.2) received).trans ?_
        rw [hreceived]
        simp
      · rw [hmode]
        exact hbody x hx
      · rw [hcall] at idle
        cases idle
  | torn rest ok before mem received after =>
    have hnil := htail.nil_of_tears hs hd before mem
    refine hmore hnil (congrArg (fun x => x.2.2) received) (List.nil_append _).symm (by simp)
      (.torn ok (hs'.ending.tearing k _ after).1 fun rest' h => ?_)
    obtain ⟨-, rfl⟩ := ApiCall.tearing.inj (after.symm.trans h)
    exact (hs.ending.tearing k rest before).2.not_mem_erase

/-- A dataset that is new was just opened. -/
theorem Gains.opened (h : Gains s s') (hd : d < (s'.cores k).ndatasets)
    (hnew : ¬ d < (s.cores k).ndatasets) : s'.Ordered k d := by
  cases h with
  | none same =>
    rw [(same.cores k).1] at hd
    exact absurd hd hnew
  | core after =>
    subst after
    by_cases hk : k = s.ncores
    · subst hk
      rw [init_cores_self] at hd
      exact absurd hd (Nat.not_lt_zero d)
    · rw [init_cores hk] at hd
      exact absurd hd hnew
  | dataset j mode idle live after =>
    subst after
    rw [(s.openDataset_counts j mode k).1] at hd
    -- it is the dataset that was opened, or it was there before
    rcases s.openDataset_cases j mode k d with ⟨rfl, rfl, hrecord⟩ | ⟨hne, -⟩
    · refine ⟨[], [], ?_, by simp, .running fun h => by cases h⟩
      rw [hrecord]
      rfl
    · split at hd
      · next hk =>
        subst hk
        have heq : d ≠ (s.cores k).ndatasets := fun he => hne ⟨rfl, he⟩
        omega
      · exact absurd hd hnew
  | queue j e idle live mode more =>
    rw [more.ndatasets] at hd
    exact absurd hd hnew

/-- The calls of every dataset are in order, in every orderly run. -/
theorem Ordered.of_reach (h : system.Reach (fun s op => s.orderly op = true) s) :
    ∀ k d, d < (s.cores k).ndatasets → s.Ordered k d := by
  refine h.invariant_of (J := LifeInv)
    (I := fun s => ∀ k d, d < (s.cores k).ndatasets → s.Ordered k d) (fun _ h => .of_reach h)
    (fun s hinit _ k d hd => ?_) fun s op s' hs hs' hordered hok hstep k d hd => ?_
  · obtain ⟨-, -, hcores, -⟩ := hinit
    rw [hcores] at hd
    exact absurd hd (Nat.not_lt_zero d)
  · by_cases hold : d < (s.cores k).ndatasets
    · exact (hordered k d hold).step hs hs' hold hok hstep
    · exact (step_turns hstep).gains.opened hd hold

/-- What follows the body is the flush and the close, or a part of it. -/
theorem Tail.prefix_end (h : s.Tail k d tail) : tail <+: [.flush, .close] := by
  cases h with
  | running | flushed | closed => simp
  | torn ok => cases ok <;> simp

/-- A dataset in order has followed the life cycle so far. -/
theorem Ordered.follows (h : s.Ordered k d) : FollowsLifecycle (s.datasets k d).received := by
  obtain ⟨body, tail, hreceived, hbody, htail⟩ := h
  refine .of_mode hbody ?_
  rw [hreceived]
  exact List.cons_prefix_cons.mpr ⟨rfl, (List.prefix_append_right_inj body).mpr htail.prefix_end⟩

/-- **The life of a driver.** In an orderly run every driver is asked the calls of its life, in
their order: none after `close`, and no write when it was opened for reading. -/
theorem driver_lifecycle (h : system.Reach (fun s op => s.orderly op = true) s)
    (hd : d < (s.cores k).ndatasets) :
    FollowsLifecycle (s.datasets k d).received ∧
      (∀ a b, (s.datasets k d).received = a ++ .close :: b → b = []) ∧
      (.openRead ∈ (s.datasets k d).received → .write ∉ (s.datasets k d).received) := by
  have hfollows := (Ordered.of_reach h k d hd).follows
  exact ⟨hfollows, fun a b => hfollows.close_last, hfollows.not_write⟩

/-- The first dataset of core `0` is closed. -/
def closeOps : List ApiOp :=
  [.close (pack 1 1), .proceed, .proceed, .surface, .flushDriver true, .closeDriver true]

theorem driver_lifecycle_of_write :
    ∃ s, system.replay (fun s op => s.orderly op = true) smallProcess
        (storeOps ++ closeOps) = some s ∧
      (s.datasets 0 0).received = [.openWrite, .write, .flush, .close] ∧
      FollowsLifecycle (s.datasets 0 0).received := by
  have hrun : ((system.replay (fun s op => s.orderly op = true) smallProcess
      (storeOps ++ closeOps)).map fun s => ((s.cores 0).ndatasets, (s.datasets 0 0).received)) =
      some (1, [.openWrite, .write, .flush, .close]) := by decide +kernel
  obtain ⟨s, hs, hobs⟩ := Option.map_eq_some_iff.mp hrun
  obtain ⟨hd, hreceived⟩ := Prod.mk.inj hobs
  have hlt : 0 < (s.cores 0).ndatasets := by rw [hd]; exact Nat.one_pos
  exact ⟨s, hs, hreceived, (driver_lifecycle (.of_replay _ (.init smallProcess_init) hs) hlt).1⟩

/-- `finalize` flushes and closes a driver that `close_dataset` has closed, and `write` reaches a
driver that was opened for reading. -/
theorem driver_strays :
    (∃ s, system.replay (fun _ _ => True) smallProcess
        ([.init none, .openDataset (pack 0 1) .write none] ++ closeOps ++ finalizeOps) = some s ∧
      system.Reachable s ∧ 0 < (s.cores 0).ndatasets ∧
      (s.datasets 0 0).received = [.openWrite, .flush, .close, .flush, .close] ∧
      ¬ FollowsLifecycle (s.datasets 0 0).received) ∧
    ∃ s, system.replay (fun _ _ => True) smallProcess
        ([.init none, .openDataset (pack 0 1) .read none] ++ writeOps (pack 1 1) 0 ++ workOps) =
          some s ∧
      system.Reachable s ∧ 0 < (s.cores 0).ndatasets ∧
      (s.datasets 0 0).received = [.openRead, .write] ∧
      ¬ FollowsLifecycle (s.datasets 0 0).received := by
  -- a dataset that is closed by the host and then by `finalize`
  have hclosed : ((system.replay (fun _ _ => True) smallProcess
      ([.init none, .openDataset (pack 0 1) .write none] ++ closeOps ++ finalizeOps)).map fun s =>
      ((s.cores 0).ndatasets, (s.datasets 0 0).received)) =
      some (1, [.openWrite, .flush, .close, .flush, .close]) := by decide +kernel
  -- a write into a dataset that is open for reading
  have hread : ((system.replay (fun _ _ => True) smallProcess
      ([.init none, .openDataset (pack 0 1) .read none] ++ writeOps (pack 1 1) 0 ++ workOps)).map
      fun s => ((s.cores 0).ndatasets, (s.datasets 0 0).received)) =
      some (1, [.openRead, .write]) := by decide +kernel
  constructor
  · obtain ⟨s, hs, hobs⟩ := Option.map_eq_some_iff.mp hclosed
    obtain ⟨hd, hreceived⟩ := Prod.mk.inj hobs
    refine ⟨s, hs, .of_replay _ smallProcess_init hs, by rw [hd]; exact Nat.one_pos, hreceived,
      fun hfollows => ?_⟩
    cases hfollows.close_last (a := [.openWrite, .flush]) (b := [.flush, .close]) hreceived
  · obtain ⟨s, hs, hobs⟩ := Option.map_eq_some_iff.mp hread
    obtain ⟨hd, hreceived⟩ := Prod.mk.inj hobs
    refine ⟨s, hs, .of_replay _ smallProcess_init hs, by rw [hd]; exact Nat.one_pos, hreceived,
      fun hfollows => ?_⟩
    have hnot := hfollows.not_write
    rw [hreceived] at hnot
    exact hnot (by simp) (by simp)

end Process

end Amio
