import Amio.Prefetch.Sections

/-!
# The buffer that `get_buffer` hands out

Three of the four places where `get_buffer` returns a buffer compare the selection it was fetched
with to the one that was asked for. The fourth, the last look after the wait has timed out, does
not. A buffer of another selection can be staged at that moment: the fetch was dispatched by another
call, or by a look-ahead under an earlier selection.

The invariant says who owns which buffer and what each holds. It is kept by every step except a
timeout that finds a buffer of another selection, and under it whatever is returned is what was
asked for (`right_selection`).
-/

namespace Amio

/-- The buffer that a fetch has acquired and not yet given away. -/
def FetchPhase.buffer : FetchPhase → Option Nat
  | .acquired buf | .filled buf | .threw buf => some buf
  | _ => none

namespace PrefetchRun

variable {s s' : PrefetchRun} {c c' f f' : Nat} {t : Int} {st : Stage} {pc : ReadPc}

/-- A fetch owns its buffer, and once it is filled it holds what the fetch asked the driver for. -/
structure FetchOk (s : PrefetchRun) (f : Nat) : Prop where
  owns : ∀ i, (s.fetches f).phase.buffer = some i → s.stage.owner i = some (.fetch f)
  filled : ∀ i, (s.fetches f).phase = .filled i →
    s.stage.Holds i (s.fetches f).timestep (s.fetches f).sel

/-- **The promise**: a `get_buffer` that has returned `AMIO_OK` has returned a buffer, which until
the caller releases it is the caller's and holds what a driver read of exactly the timestep and the
selection that were asked for has delivered. -/
def RightSelection (s : PrefetchRun) (c : Nat) : Prop :=
  ∀ out, (s.calls c).pc = .returned .ok out → (s.calls c).kind = .getBuffer →
    (s.calls c).released = false →
    ∃ i, out = some i ∧ s.stage.owner i = some (.caller c) ∧
      s.stage.Holds i (s.calls c).timestep (s.calls c).bbox

structure SelectionInv (s : PrefetchRun) : Prop where
  ok : s.stage.Ok
  fetch : ∀ f, FetchOk s f
  fits : ∀ c, Fits (s.calls c)
  right : ∀ c, RightSelection s c

/-! ### Frames -/

/-- A fetch that does not move, and whose buffer is spared. -/
theorem FetchOk.spared (h : FetchOk s f) (hspare : s.stage.Spares s'.stage (.fetch f))
    (hfetch : s'.fetches f = s.fetches f) : FetchOk s' f := by
  constructor
  · intro i hi
    rw [hfetch] at hi
    exact (hspare.kept i (h.owns i hi)).1
  · intro i hi
    rw [hfetch] at hi ⊢
    exact hspare.holds (h.owns i (by rw [hi]; rfl)) (h.filled i hi)

/-- A call that has returned does not move, and its buffer is spared. -/
theorem RightSelection.spared (h : RightSelection s c)
    (hspare : s.stage.Spares s'.stage (.caller c))
    (hcall : ∀ status out, (s'.calls c).pc = .returned status out → s'.calls c = s.calls c) :
    RightSelection s' c := by
  intro out hpc hkind hreleased
  have hsame := hcall .ok out hpc
  rw [hsame] at hpc hkind hreleased ⊢
  obtain ⟨i, hi, ho, hh⟩ := h out hpc hkind hreleased
  exact ⟨i, hi, (hspare.kept i ho).1, hspare.holds ho hh⟩

/-- What a call is about after it has moved. -/
theorem call_goto (s : PrefetchRun) (st : Stage) (c : Nat) (pc : ReadPc) (c' : Nat) :
    ((s.withStage st).goto c pc).calls c' =
      if c' = c then { s.calls c with pc := pc } else s.calls c' := by
  split
  · next h => subst h; exact goto_calls_self _ _ _
  · next h => exact goto_calls_of_ne _ _ h

/-! ### Calls -/

/-- A call moves: it has touched no buffer but the one staged for its timestep, and if it returns
`AMIO_OK` it has the right one. -/
theorem SelectionInv.goto (hs : SelectionInv s) (hok : st.Ok)
    (hkeep : s.stage.Keeps st (.staged t)) (hfits : Fits { s.calls c with pc := pc })
    (hright : ∀ out, pc = .returned .ok out → (s.calls c).kind = .getBuffer →
      ∃ i, out = some i ∧ st.owner i = some (.caller c) ∧
        st.Holds i (s.calls c).timestep (s.calls c).bbox) :
    SelectionInv ((s.withStage st).goto c pc) where
  ok := hok
  fetch f := (hs.fetch f).spared (hkeep _ (by simp)) rfl
  fits c' := by
    rw [call_goto]
    split
    · exact hfits
    · exact hs.fits c'
  -- the call that moved owes its promise now; the buffers of the others are not staged
  right c' := by
    by_cases hc : c' = c
    · subst hc
      intro out hpc hkind _
      rw [call_goto, if_pos rfl] at hpc hkind ⊢
      exact hright out hpc hkind
    · refine (hs.right c').spared (hkeep _ (by simp)) fun _ _ _ => ?_
      rw [call_goto, if_neg hc]

/-- A section that hands out only what it should. -/
theorem SelectionInv.sectioned (hs : SelectionInv s) (hsec : Sectioned s c st pc)
    (hfits : Fits { s.calls c with pc := pc }) : SelectionInv ((s.withStage st).goto c pc) := by
  obtain ⟨v, hserved, hret⟩ := hsec.served hs.ok
  exact hs.goto hserved.ok hserved.keeps hfits fun out hpc _ =>
    hserved.returns out (hret .ok out hpc)

/-- The latched selection is nobody's yet. -/
theorem SelectionInv.latch (hs : SelectionInv s) (bbox : Option Bbox) :
    SelectionInv (s.latch bbox) := by
  obtain ⟨hok, hkeep⟩ := hs.ok.requeue { s.stage.queue with latchedBbox := bbox } rfl rfl rfl rfl
  exact ⟨hok, fun f => (hs.fetch f).spared (hkeep (.staged 0) _ (by simp)) rfl, hs.fits,
    fun c => (hs.right c).spared (hkeep (.staged 0) _ (by simp)) fun _ _ _ => rfl⟩

/-- The window loops hand nothing out. -/
theorem windowPc_returned {k : Nat} {status : AmioErr} {out : Option Nat}
    (h : s.windowPc c k = .returned status out) : out = none := by
  unfold windowPc at h
  simp only at h
  split at h
  · cases h
  · split at h <;> cases h
    rfl

/-- `schedule_fetch` returns to a caller without a buffer. -/
theorem resume_returned {next : After} {status : AmioErr} {out : Option Nat}
    (h : s.resume c next = .returned status out) : out = none := by
  cases next with
  | window k => exact windowPc_returned h
  | loop | recheck => cases h
  | done =>
    cases h
    rfl

/-- A step of a call keeps the selections right. -/
theorem SelectionInv.callMove (hs : SelectionInv s) (h : CallMove s c st pc) :
    SelectionInv ((s.withStage st).goto c pc) := by
  have hfits := h.fits hs.ok (hs.fits c)
  obtain ⟨hok, hkeep⟩ := h.stage hs.ok
  -- the calls that schedule return without a buffer
  have hnone : ∀ pc, Fits { s.calls c with pc := pc } →
      (∀ status out, pc = .returned status out → out = none) →
      ∀ out, pc = .returned .ok out → (s.calls c).kind = .getBuffer →
        ∃ i, out = some i ∧ st.owner i = some (.caller c) ∧
          st.Holds i (s.calls c).timestep (s.calls c).bbox := by
    rintro _ hfits hout out rfl hkind
    exact absurd hkind (hfits.1 rfl (hout _ _ rfl))
  cases h with
  | enter at_ kind kicked sec ends => exact (hs.latch (s.calls c).bbox).sectioned sec hfits
  | first at_ sec ends => exact hs.sectioned sec hfits
  | loop at_ sec ends => exact hs.sectioned sec hfits
  | recheck at_ sec ends => exact hs.sectioned sec hfits
  | kick at_ kind | initial at_ kind =>
    exact hs.goto hok hkeep hfits (hnone _ hfits fun _ _ => windowPc_returned)
  | next at_ kind ends =>
    refine hs.goto hok hkeep hfits (hnone _ hfits ?_)
    rcases ends with rfl | rfl
    · rintro _ _ ⟨⟩
      rfl
    · rintro _ _ ⟨⟩
  | track at_ live fresh => exact hs.goto hok hkeep hfits (hnone _ hfits nofun)
  | skip at_ why =>
    exact hs.goto hok hkeep hfits (hnone _ hfits fun _ _ => resume_returned)

/-! ### Fetches -/

/-- A call that is notified fits. -/
theorem Fits.notify {call : ReadCall} (h : Fits call) :
    Fits { call with pc := call.pc.notify } := by
  obtain ⟨kind, t, bbox, pc, released⟩ := call
  cases pc <;> exact h

/-- A `notify_all` does not touch the calls that have returned. -/
theorem notify_of_returned {pc : ReadPc} {status : AmioErr} {out : Option Nat}
    (h : pc.notify = .returned status out) : pc.notify = pc := by
  cases pc <;> first | rfl | cases h

/-- `notify_all` leaves a call, or notifies it. -/
theorem calls_notifyIf (s : PrefetchRun) (notify : Bool) (c : Nat) :
    (s.notifyIf notify).calls c = s.calls c ∨
      (s.notifyIf notify).calls c = { s.calls c with pc := (s.calls c).pc.notify } := by
  cases notify with
  | false => exact .inl rfl
  | true => exact .inr rfl

/-- A `notify_all`, or none, that follows a step. -/
theorem SelectionInv.notifyIf (hs : SelectionInv s) (notify : Bool) :
    SelectionInv (s.notifyIf notify) := by
  -- waking the sleepers touches neither stage nor fetches
  have hstage : (s.notifyIf notify).stage = s.stage := by cases notify <;> rfl
  have hfetches : (s.notifyIf notify).fetches = s.fetches := by cases notify <;> rfl
  have hspare : ∀ k, s.stage.Spares (s.notifyIf notify).stage k := by
    intro k
    rw [hstage]
    exact ⟨rfl, fun _ h => ⟨h, rfl, rfl⟩⟩
  refine ⟨by rw [hstage]; exact hs.ok, fun f => (hs.fetch f).spared (hspare _) (by rw [hfetches]),
    fun c => ?_, fun c => (hs.right c).spared (hspare _) fun status out hpc => ?_⟩
  · rcases calls_notifyIf s notify c with h | h <;> rw [h]
    · exact hs.fits c
    · exact (hs.fits c).notify
  · rcases calls_notifyIf s notify c with h | h
    · exact h
    · rw [h] at hpc ⊢
      have hpc' : (s.calls c).pc.notify = .returned status out := hpc
      rw [notify_of_returned hpc']

/-- What a fetch leaves behind: it has touched no buffer but its own, and what it has it owns. -/
theorem FetchMove.stage {phase : FetchPhase} {notify : Bool} (h : FetchMove s f st phase notify)
    (hok : s.stage.Ok) (hf : FetchOk s f) :
    st.Ok ∧ s.stage.Keeps st (.fetch f) ∧
      (∀ i, phase.buffer = some i → st.owner i = some (.fetch f)) ∧
      ∀ i, phase = .filled i → st.Holds i (s.fetches f).timestep (s.fetches f).sel := by
  cases h with
  -- no buffer is touched
  | started at_ live => exact ⟨hok, .refl _ _, nofun, nofun⟩
  | dropped at_ cancelled =>
    obtain ⟨hok', hkeep⟩ := hok.requeue { s.stage.queue with
      pending := s.stage.queue.pending.erase (s.fetches f).timestep } rfl rfl rfl rfl
    exact ⟨hok', hkeep _, nofun, nofun⟩
  -- what is acquired was nobody's; what is refused touches no one else's buffer
  | @got r buf alloc p' at_ ha =>
    obtain ⟨hok', hspare⟩ := hok.acquired ha (.fetch f) (by simp)
    refine ⟨hok', fun k _ => hspare k, ?_, nofun⟩
    rintro i ⟨⟩
    exact Function.update_self _ _ _
  | @refused r alloc res p' phase at_ ha ends =>
    have hne : ∀ j, res ≠ .got j := by
      rcases ends with ⟨rfl, -⟩ | ⟨rfl, -⟩ <;> simp
    obtain ⟨hok', hspare⟩ := hok.denied ha hne
    refine ⟨hok', fun k _ => hspare k, ?_, ?_⟩
    · rcases ends with ⟨-, rfl⟩ | ⟨-, rfl | rfl⟩ <;> exact nofun
    · rcases ends with ⟨-, rfl⟩ | ⟨-, rfl | rfl⟩ <;> exact nofun
  -- the driver fills the fetch's own buffer, for its own timestep and selection
  | @answered buf at_ payload =>
    have ho := hf.owns buf (by rw [at_]; rfl)
    refine ⟨hok.deliver ho _, Stage.keeps_deliver ho, ?_, ?_⟩
    · rintro i ⟨⟩
      exact ho
    · rintro i ⟨⟩
      exact Stage.holds_deliver hok ho payload
  | @threw buf at_ =>
    refine ⟨hok, .refl _ _, ?_, nofun⟩
    rintro i ⟨⟩
    exact hf.owns buf (by rw [at_]; rfl)
  -- the fetch gives its buffer up: to the pool, or to the staged ones
  | @released buf at_ =>
    have ho := hf.owns buf (by rcases at_ with at_ | at_ <;> (rw [at_]; rfl))
    exact ⟨hok.release ho (by simp), Stage.keeps_release ho, nofun, nofun⟩
  | @completed buf at_ fits =>
    have ho := hf.owns buf (by rw [at_]; rfl)
    exact ⟨hok.complete ho (hf.filled buf at_), Stage.keeps_complete ho, nofun, nofun⟩
  | @failed err err_ne at_ =>
    exact ⟨hok.fail _ err_ne,
      Stage.keeps_withQueue (s.stage.queue.markFailed (s.fetches f).timestep err) rfl _,
      nofun, nofun⟩

/-- A fetch that has moved still owns what it has; the others do not notice. -/
theorem FetchOk.setPhase (hf : ∀ f, FetchOk s f) {phase : FetchPhase}
    (hkeep : s.stage.Keeps st (.fetch f))
    (howns : ∀ i, phase.buffer = some i → st.owner i = some (.fetch f))
    (hfilled : ∀ i, phase = .filled i →
      st.Holds i (s.fetches f).timestep (s.fetches f).sel) (f' : Nat) :
    FetchOk ((s.withStage st).setPhase f phase) f' := by
  by_cases h : f' = f
  · subst h
    have hself : ((s.withStage st).setPhase f' phase).fetches f' =
        { s.fetches f' with phase := phase } := Function.update_self _ _ _
    constructor
    · rw [hself]
      exact howns
    · rw [hself]
      exact hfilled
  · refine (hf f').spared (hkeep _ ?_) (Function.update_of_ne h _ _)
    exact fun heq => h (Keeper.fetch.inj heq)

/-- A step of a fetch keeps them right. -/
theorem SelectionInv.fetchMove (hs : SelectionInv s) {phase : FetchPhase} {notify : Bool}
    (h : FetchMove s f st phase notify) : SelectionInv ((s.withStage st).setPhase f phase) := by
  obtain ⟨hok, hkeep, howns, hfilled⟩ := h.stage hs.ok (hs.fetch f)
  exact ⟨hok, FetchOk.setPhase hs.fetch hkeep howns hfilled, hs.fits,
    fun c => (hs.right c).spared (hkeep _ (by simp)) fun _ _ _ => rfl⟩

/-! ### The other steps -/

/-- A step that moves no call and no fetch and spares the buffers of both. -/
theorem SelectionInv.restage (hs : SelectionInv s) (hok : st.Ok)
    (hspare : ∀ k, (∀ t, k ≠ .staged t) → k ≠ .other → s.stage.Spares st k) :
    SelectionInv (s.withStage st) :=
  ⟨hok, fun f => (hs.fetch f).spared (hspare _ (by simp) (by simp)) rfl, hs.fits,
    fun c => (hs.right c).spared (hspare _ (by simp) (by simp)) fun _ _ _ => rfl⟩

/-- The other users of the pool touch no buffer of the queue, its fetches or its callers. -/
theorem otherStep_stage (hok : s.stage.Ok) {op : PoolUse} (h : s.otherStep op = some s') :
    ∃ st, s' = s.withStage st ∧ st.queue = s.stage.queue ∧ st.Ok ∧
      ∀ k, (∀ t, k ≠ .staged t) → k ≠ .other → s.stage.Spares st k := by
  cases op with
  -- an acquire takes a buffer without an owner; release and fill need the other user's own
  | acquire r alloc final =>
    simp only [PrefetchRun.otherStep] at h
    rcases hres : (if final then s.stage.pool.acquireFinal r alloc
      else s.stage.pool.acquireOnce r alloc) with ⟨res, p'⟩
    have ha : s.stage.pool.acquireOnce r alloc = (res, p') ∨
        s.stage.pool.acquireFinal r alloc = (res, p') := by
      cases final with
      | true => exact .inr hres
      | false => exact .inl hres
    rw [hres] at h
    cases res with
    | got buf =>
      obtain ⟨hok', hspare⟩ := hok.acquired ha .other (by simp)
      exact ⟨_, (Option.some.inj h).symm, rfl, hok', fun k _ _ => hspare k⟩
    | threw | blocked =>
      obtain ⟨hok', hspare⟩ := hok.denied ha (by simp)
      exact ⟨_, (Option.some.inj h).symm, rfl, hok', fun k _ _ => hspare k⟩
  | release buf =>
    simp only [PrefetchRun.otherStep] at h
    split at h
    · next ho =>
      exact ⟨_, (Option.some.inj h).symm, rfl, hok.release ho (by simp),
        fun k _ hne => Stage.keeps_release ho k hne⟩
    · cases h
  | fill buf bytes =>
    simp only [PrefetchRun.otherStep] at h
    split at h
    · next ho =>
      obtain ⟨hown, -, hframe⟩ := hok.owned.fill ho bytes
      have hkeep : s.stage.Keeps (s.stage.withPool (s.stage.pool.fill buf bytes)) .other :=
        Stage.keeps_of_owner ho rfl fun j hj => ⟨rfl, hframe j hj, rfl⟩
      exact ⟨_, (Option.some.inj h).symm, rfl, hok.unstaged hkeep (by simp) hown rfl,
        fun k _ hne => hkeep k hne⟩
    · cases h

/-- The other users of the pool keep them right. -/
theorem SelectionInv.otherStep (hs : SelectionInv s) {op : PoolUse}
    (h : s.otherStep op = some s') : SelectionInv s' := by
  obtain ⟨st, rfl, -, hok, hspare⟩ := otherStep_stage hs.ok h
  exact hs.restage hok hspare

/-- The release of a buffer keeps them right. -/
theorem SelectionInv.releaseStep (hs : SelectionInv s) (h : s.releaseStep c = some s') :
    SelectionInv s' := by
  obtain ⟨buf, hpc, hreleased, rfl⟩ := releaseStep_cases h
  have hkind : (s.calls c).kind = .getBuffer := by
    have hfits := hs.fits c
    rw [Fits, hpc] at hfits
    exact hfits.2 (by simp)
  -- the promise says whose buffer it is, so the release concerns no one else
  obtain ⟨i, hi, ho, -⟩ := hs.right c _ hpc hkind hreleased
  cases hi
  have hkeep := Stage.keeps_release ho
  refine ⟨hs.ok.release ho (by simp), fun f => (hs.fetch f).spared (hkeep _ (by simp)) rfl,
    fun c' => ?_, fun c' => ?_⟩
  · by_cases hc : c' = c
    · subst hc
      simp only [Function.update_self]
      exact hs.fits c'
    · simp only [Function.update_of_ne hc]
      exact hs.fits c'
  · by_cases hc : c' = c
    · subst hc
      intro out _ _ hfalse
      simp only [Function.update_self] at hfalse
      cases hfalse
    · refine (hs.right c').spared (hkeep _ fun h => hc (Keeper.caller.inj h)) ?_
      exact fun _ _ _ => Function.update_of_ne hc _ _

theorem SelectionInv.submitStep (hs : SelectionInv s) {lost : Bool}
    (h : s.submitStep c lost = some s') : SelectionInv s' := by
  obtain ⟨t, sel, next, hpc, -, rfl⟩ := submitStep_cases h
  have hfits : Fits { s.calls c with pc := s.resume c next } :=
    fits_resume _ (hs.fits c) (.inr hpc)
  have hgoto : SelectionInv ((s.withStage s.stage).goto c (s.resume c next)) := by
    refine hs.goto hs.ok (.refl _ (.staged 0)) hfits ?_
    intro out hret hkind
    have hnone : out = none := resume_returned hret
    rw [hret] at hfits
    exact absurd hkind (hfits.1 rfl hnone)
  refine ⟨hgoto.ok, fun f => ?_, hgoto.fits, hgoto.right⟩
  -- the new fetch has no buffer yet
  by_cases hf : f = s.nfetches
  · subst hf
    cases lost <;> exact ⟨by simp [FetchPhase.buffer], by simp⟩
  · exact (hgoto.fetch f).spared ⟨rfl, fun _ h => ⟨h, rfl, rfl⟩⟩ (Function.update_of_ne hf _ _)

/-! ### Runs -/

/-- A timeout finds no buffer staged for its timestep, or one of the selection that was asked
for. -/
def timeoutMatches (s : PrefetchRun) : ReadOp → Bool
  | .expire c =>
    (s.stage.queue.completed.lookup (s.calls c).timestep).isNone ||
      bboxSame (s.stage.queue.fetchedBbox.lookup (s.calls c).timestep) (s.calls c).bbox
  | _ => true

/-- A timeout keeps them right if the staged selection is the call's. -/
theorem SelectionInv.expireStep (hs : SelectionInv s) (hguard : s.timeoutMatches (.expire c) = true)
    (h : s.expireStep c = some s') : SelectionInv s' := by
  have hmatch : ∀ i, s.stage.queue.completed.lookup (s.calls c).timestep = some i →
      bboxSame (s.stage.queue.fetchedBbox.lookup (s.calls c).timestep) (s.calls c).bbox = true := by
    intro i hi
    simpa [timeoutMatches, hi] using hguard
  have hserved := Stage.Served.lastCheck hs.ok c (s.calls c).timestep (s.calls c).bbox hmatch
  obtain ⟨notified, status, out, st, hpc, hlast, rfl⟩ := expireStep_cases h
  -- only `get_buffer` waits
  have hkind : (s.calls c).kind = .getBuffer := by
    have hfits := hs.fits c
    rw [Fits, hpc] at hfits
    exact hfits
  rw [hlast] at hserved
  refine hs.goto hserved.ok hserved.keeps ⟨?_, fun _ => hkind⟩ ?_
  · rintro rfl rfl
    obtain ⟨i, hi, -⟩ := hserved.returns none rfl
    cases hi
  · rintro out' ⟨⟩ _
    exact hserved.returns out rfl

theorem SelectionInv.start (depth : Nat) (id : UInt64) (name : List UInt8) (info : VariableInfo)
    (a : PoolArgs) : SelectionInv (start depth id name info a) where
  ok := ⟨.create Keeper a, fun _ _ => nofun, fun _ _ => nofun⟩
  fetch _ := ⟨nofun, nofun⟩
  fits _ := ⟨nofun, fun h => absurd rfl h⟩
  right _ := nofun

/-- **Every step keeps the selections right**, where timeouts match. -/
theorem SelectionInv.step (hs : SelectionInv s) {op : ReadOp}
    (hguard : s.timeoutMatches op = true) (h : s.step op = some s') : SelectionInv s' := by
  cases step_cases h with
  | begins kind t bbox =>
    refine ⟨hs.ok, fun f => (hs.fetch f).spared ⟨rfl, fun _ h => ⟨h, rfl, rfl⟩⟩ rfl,
      fun c => ?_, fun c => ?_⟩
    -- the new call has returned nothing yet
    · by_cases hc : c = s.ncalls
      · subst hc
        simp only [beginCall, Function.update_self]
        trivial
      · simp only [beginCall, Function.update_of_ne hc]
        exact hs.fits c
    · by_cases hc : c = s.ncalls
      · subst hc
        intro out hpc
        simp only [beginCall, Function.update_self] at hpc
        cases hpc
      · refine (hs.right c).spared ⟨rfl, fun _ h => ⟨h, rfl, rfl⟩⟩ ?_
        exact fun _ _ _ => Function.update_of_ne hc _ _
  | calls lt ran =>
    obtain ⟨st, pc, rfl, hmove⟩ := callStep_cases ran
    exact hs.callMove hmove
  | submits lt ran => exact hs.submitStep ran
  -- the guard: a wait that times out finds a buffer of its own selection, or none
  | expires lt ran => exact hs.expireStep hguard ran
  | fetches lt ran =>
    obtain ⟨st, phase, notify, rfl, hmove⟩ := fetchStep_cases ran
    exact (hs.fetchMove hmove).notifyIf notify
  | releases lt ran => exact hs.releaseStep ran
  | cancels =>
    obtain ⟨hok, hspare⟩ := hs.ok.cancelPending
    exact (hs.restage hok fun k hk _ => hspare k hk).notifyIf true
  | shuts =>
    exact ⟨hs.ok, fun f => (hs.fetch f).spared ⟨rfl, fun _ h => ⟨h, rfl, rfl⟩⟩ rfl, hs.fits,
      fun c => (hs.right c).spared ⟨rfl, fun _ h => ⟨h, rfl, rfl⟩⟩ fun _ _ _ => rfl⟩
  | others ran => exact hs.otherStep ran

/-- **`get_buffer` hands out the selection that was asked for**, in every run in which no wait times
out on a buffer of another selection. -/
theorem right_selection (h : system.Reach (fun s op => s.timeoutMatches op = true) s) (c : Nat) :
    RightSelection s c := by
  have hinv : SelectionInv s := h.invariant
    (fun _ ⟨depth, id, name, info, a, hs⟩ => hs ▸ .start depth id name info a)
    fun _ _ _ hs hguard hstep => hs.step hguard hstep
  exact hinv.right c

/-- A read of the record with the selection `bbox` waits for the look-ahead fetch, which completes
just as the wait times out. -/
def timeoutOps (bbox : Option Bbox) : List ReadOp :=
  warmOps ++ [.begin .getBuffer 0 bbox, .call 1] ++ fetchOps 0 [1, 2] ++ [.expire 1]

theorem right_selection_of_timeout :
    ∃ s, system.replay (fun s op => s.timeoutMatches op = true) oneRecord (timeoutOps none) =
        some s ∧
      (s.calls 1).pc = .returned .ok (some 0) ∧ s.stage.pool.payload 0 = [1, 2] ∧
      RightSelection s 1 :=
  ⟨_, rfl, rfl, rfl, right_selection
    (Lts.System.Reach.of_replay (timeoutOps none) (.init oneRecord_init) rfl) 1⟩

/-- The whole record is handed to a reader of its first byte. -/
theorem timeout_returns_other_selection :
    ∃ s, system.replay (fun _ _ => True) oneRecord (timeoutOps (some firstByte)) = some s ∧
      system.Reachable s ∧ (s.calls 1).pc = .returned .ok (some 0) ∧
      (s.stage.lastRead 0).map (·.bbox) = some none ∧ s.stage.pool.payload 0 = [1, 2] ∧
      ¬ RightSelection s 1 := by
  refine ⟨_, rfl, Lts.System.Reachable.of_replay (timeoutOps (some firstByte)) oneRecord_init rfl,
    rfl, rfl, rfl, fun h => ?_⟩
  obtain ⟨i, hi, -, hholds⟩ := h _ rfl rfl rfl
  cases hi
  cases congrArg (Option.map DriverRead.bbox) hholds

end PrefetchRun

end Amio
