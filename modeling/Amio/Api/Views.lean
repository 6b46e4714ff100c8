import Amio.Api.Registry

/-!
# Views

A view is accounted for in four places: the counter of its dataset, its slot in the handle table,
its `ViewRecord`, and the reference that it holds on a staging buffer. They agree in every state
(`views_accounted`), whatever is read, released and closed in whatever order: the counter is the
number of live View handles, the buffers behind them are not on the free list, and `close_dataset`
is refused exactly when there are some.

This holds as long as every view finds a slot. `HandleTable::insert` returns zero when there is
none, and `read` does not look.
-/

namespace Amio

namespace IoRun

variable {s s' : IoRun}

/-- A step of the write path leaves the queues alone. -/
theorem writeStep_queues {op : WriteOp} (h : s.writeStep op = some s') : s'.queues = s.queues := by
  obtain ⟨w, -, rfl⟩ := Option.map_eq_some_iff.mp h
  rfl

/-- What a step of a core does to a queue: nothing, or a step of the queue. -/
theorem step_queue {op : IoOp} (h : s.step op = some s') (q : Nat) :
    s'.queues q = s.queues q ∨
      ∃ rop, op = .read q rop ∧ (s.asQueue q).step rop = some (s'.queues q) := by
  cases op with
  | call args region =>
    simp only [IoRun.step] at h
    obtain ⟨s₁, hs₁, rfl⟩ := Option.map_eq_some_iff.mp h
    exact .inl (congrFun (writeStep_queues hs₁) q)
  | copy c => exact .inl (congrFun (writeStep_queues h) q)
  | write wop => exact .inl (congrFun (writeStep_queues (step_write h).1) q)
  | read k rop =>
    obtain ⟨r, hr, rfl⟩ := Option.map_eq_some_iff.mp (step_read h).1
    -- a step of one queue does not touch the others
    by_cases hq : q = k
    · subst hq
      refine .inr ⟨rop, rfl, ?_⟩
      show _ = some (Function.update s.queues q r q)
      rw [Function.update_self]
      exact hr
    · exact .inl (Function.update_of_ne hq _ _)
  | mutate region bytes =>
    simp only [IoRun.step] at h
    split at h
    · cases h
    · obtain rfl := Option.some.inj h
      exact .inl rfl

/-- What a step of a core does to a call that was made before on one of its queues. -/
theorem step_lasts {op : IoOp} (h : s.step op = some s') {q c : Nat}
    (hc : c < (s.queues q).ncalls) :
    PrefetchRun.Lasts (s.queues q) (s'.queues q) c ∧
      (op ≠ .read q (.release c) →
        ((s'.queues q).calls c).released = ((s.queues q).calls c).released) := by
  rcases step_queue h q with hsame | ⟨rop, rfl, hstep⟩
  · rw [hsame]
    exact ⟨⟨hc, fun _ _ hpc => hpc⟩, fun _ => rfl⟩
  · obtain ⟨hlasts, hreleased⟩ := PrefetchRun.step_lasts hstep hc
    refine ⟨⟨hlasts.lt, hlasts.returned⟩, fun hop => hreleased ?_⟩
    rintro rfl
    exact hop rfl

/-- The steps of a queue do not look at the handles. -/
theorem step_read_handles (t : HandleTable Nat) (q : Nat) (op : ReadOp) :
    IoRun.step { s with writes := { s.writes with handles := t } } (.read q op) =
      (s.step (.read q op)).map fun r => { r with writes := { r.writes with handles := t } } := by
  have hread : IoRun.readStep { s with writes := { s.writes with handles := t } } q op =
      (s.readStep q op).map fun r => { r with writes := { r.writes with handles := t } } := by
    simp only [readStep, Option.map_map]
    rfl
  cases op with
  | other => rfl
  | begin | call | submit | expire | fetch | release | cancel | shutdown => exact hread

/-- Which handles there are does not matter to the rest of a core. -/
theorem Isolated.withHandles (h : Isolated s) (t : HandleTable Nat) :
    Isolated { s with writes := { s.writes with handles := t } } where
  owned := h.owned
  roomy := h.roomy
  writes := h.writes.step (@WriteRun.Step.otherHandles s.asWrite (.releaseHandle 0 .io) t)
  books := h.books
  custody := h.custody

end IoRun

namespace Process

variable {s s' : Process} {k d q c v : Nat} {op : ApiOp}

/-- Every core keeps its buffers apart. -/
theorem isolated_of_reach {ok : Process → ApiOp → Prop} (h : system.Reach ok s) :
    ∀ k, (s.io k).Isolated := by
  refine h.invariant (I := fun s => ∀ k, (s.io k).Isolated) (fun s hinit k => ?_)
    fun s op s' hs _ hstep j => ?_
  · obtain ⟨-, -, -, hio, -⟩ := hinit
    exact .initial (hio k).1
  · cases step_inside hstep with
    | still io | observes _ _ _ _ _ io =>
      rw [io]
      exact hs j
    -- a step inside a core keeps its users apart, with any handles
    | moves k iop t step elsewhere =>
      by_cases hj : j = k
      · subst hj
        exact ((hs j).withHandles t).step step
      · rw [elsewhere j hj]
        exact hs j

/-! ### Counting -/

/-- Slot `i` is bound to a view of dataset `d` of core `k`. -/
def showsViewOf (s : Process) (k d i : Nat) : Bool :=
  (s.handles.table.slot i).live && decide ((s.handles.table.slot i).kind = .view) &&
    match (s.handles.table.slot i).payload with
    | some (.view j v) => decide (j = k ∧ (s.views k v).dataset = d)
    | _ => false

/-- The live View handles that were minted for dataset `d` of core `k`, by their slots. -/
def viewSlots (s : Process) (k d : Nat) : Finset Nat :=
  (Finset.range s.handles.table.size).filter fun i => s.showsViewOf k d i = true

def liveViews (s : Process) (k d : Nat) : Nat := (s.viewSlots k d).card

/-- The slots that show a view of the dataset. -/
theorem mem_viewSlots {i : Nat} : i ∈ s.viewSlots k d ↔
    ∃ v, s.handles.table.Shows i .view (.view k v) ∧ (s.views k v).dataset = d := by
  simp only [viewSlots, Finset.mem_filter, Finset.mem_range, showsViewOf, Bool.and_eq_true,
    decide_eq_true_eq, HandleTable.Shows]
  constructor
  · rintro ⟨hlt, ⟨hlive, hkind⟩, hpayload⟩
    split at hpayload
    · next j v hv =>
      obtain ⟨rfl, hd⟩ := of_decide_eq_true hpayload
      exact ⟨v, ⟨hlt, hlive, hkind, hv⟩, hd⟩
    · cases hpayload
  · rintro ⟨v, ⟨hlt, hlive, hkind, hpayload⟩, hd⟩
    refine ⟨hlt, ⟨hlive, hkind⟩, ?_⟩
    rw [hpayload]
    exact decide_eq_true ⟨rfl, hd⟩

/-- The slots of views are as they were. -/
theorem viewSlots_congr
    (hshows : ∀ i v, s'.handles.table.Shows i .view (.view k v) ↔
      s.handles.table.Shows i .view (.view k v))
    (hviews : ∀ v, (s'.views k v).dataset = (s.views k v).dataset) :
    s'.viewSlots k d = s.viewSlots k d := by
  ext i
  rw [mem_viewSlots, mem_viewSlots]
  refine exists_congr fun v => ?_
  rw [hshows, hviews]

/-- A new handle of another kind changes no view's slot. -/
theorem viewSlots_insert (hs : Registered s) {kind : HandleKind} {x : Payload}
    (hkind : kind ≠ .view) (hhandles : s'.handles = s.handles.insert kind x)
    (hviews : s'.views = s.views) : s'.viewSlots k d = s.viewSlots k d := by
  refine viewSlots_congr (fun i v => ?_) fun v => by rw [hviews]
  rw [hhandles]
  refine (hs.slab.insert_shows kind x i .view (.view k v)).trans (or_iff_left ?_)
  rintro ⟨-, heq, -⟩
  exact hkind heq.symm

/-- The end of a handle of another kind changes no view's slot. -/
theorem viewSlots_release (hs : Registered s) {token : Token} {kind : HandleKind}
    (hkind : kind ≠ .view) (hhandles : s'.handles = s.handles.release token kind)
    (hviews : s'.views = s.views) : s'.viewSlots k d = s.viewSlots k d := by
  refine viewSlots_congr (fun i v => ?_) fun v => by rw [hviews]
  rw [hhandles]
  refine (hs.slab.release_shows token kind i .view (.view k v)).trans (and_iff_left ?_)
  rintro ⟨heq, -⟩
  exact hkind heq.symm

/-- A view that finds a slot is counted, for its dataset. -/
theorem viewSlots_mint (hs : Registered s) (hs' : Registered s') (hroom : s.handles.table.Room)
    {x : ViewRecord}
    (hhandles : s'.handles = s.handles.insert .view (.view k (s.cores k).nviews))
    (hviews : s'.views = Function.update s.views k (Function.update (s.views k)
      (s.cores k).nviews x)) :
    (s'.viewSlots k x.dataset).card = (s.viewSlots k x.dataset).card + 1 ∧
      ∀ j e, (j, e) ≠ (k, x.dataset) → s'.viewSlots j e = s.viewSlots j e := by
  obtain ⟨i₀, hshows₀, -, hnew⟩ := hs.slab.insert_self hroom .view (.view k (s.cores k).nviews)
  -- the table shows what it showed, and the new view in its slot
  have hshows : ∀ i j v, s'.handles.table.Shows i .view (.view j v) ↔
      s.handles.table.Shows i .view (.view j v) ∨
        (i = i₀ ∧ j = k ∧ v = (s.cores k).nviews) := by
    intro i j v
    constructor
    · intro hi
      have hboth := hi
      rw [hhandles] at hi
      rcases (hs.slab.insert_shows _ _ i .view (.view j v)).mp hi with hold | ⟨-, -, heq, -⟩
      · exact .inl hold
      · obtain ⟨rfl, rfl⟩ := Payload.view.inj heq
        exact .inr ⟨hs'.unique hboth (by rw [hhandles]; exact hshows₀), rfl, rfl⟩
    · rw [hhandles]
      rintro (hold | ⟨rfl, rfl, rfl⟩)
      · exact (hs.slab.insert_shows _ _ i .view (.view j v)).mpr (.inl hold)
      · exact hshows₀
  -- the records of the views that were there are as they were
  have hold : ∀ {i j v}, s.handles.table.Shows i .view (.view j v) →
      (s'.views j v).dataset = (s.views j v).dataset := by
    intro i j v hi
    obtain ⟨-, -, -, hlt, -⟩ := hs.shows hi
    rw [hviews, Lts.update_update_of_ne]
    rintro ⟨rfl, rfl⟩
    exact Nat.lt_irrefl _ hlt
  have hself : (s'.views k (s.cores k).nviews).dataset = x.dataset := by
    rw [hviews, Lts.update_update_self]
  constructor
  -- for the dataset of the view the set gains the new slot
  · have hinsert : s'.viewSlots k x.dataset = insert i₀ (s.viewSlots k x.dataset) := by
      ext i
      rw [Finset.mem_insert, mem_viewSlots, mem_viewSlots]
      constructor
      · rintro ⟨v, hi, hd⟩
        rcases (hshows i k v).mp hi with hbefore | ⟨rfl, -, rfl⟩
        · exact .inr ⟨v, hbefore, (hold hbefore).symm.trans hd⟩
        · exact .inl rfl
      · rintro (rfl | ⟨v, hi, hd⟩)
        · exact ⟨_, (hshows _ _ _).mpr (.inr ⟨rfl, rfl, rfl⟩), hself⟩
        · exact ⟨v, (hshows _ _ _).mpr (.inl hi), (hold hi).trans hd⟩
    rw [hinsert, Finset.card_insert_of_notMem]
    rw [mem_viewSlots]
    rintro ⟨v, hi, -⟩
    exact hnew ⟨_, _, hi⟩
  -- for any other dataset it is the same set
  · intro j e hne
    ext i
    rw [mem_viewSlots, mem_viewSlots]
    constructor
    · rintro ⟨v, hi, hd⟩
      rcases (hshows i j v).mp hi with hbefore | ⟨-, rfl, rfl⟩
      · exact ⟨v, hbefore, (hold hbefore).symm.trans hd⟩
      · exact absurd (by rw [← hd, hself]) hne
    · rintro ⟨v, hi, hd⟩
      exact ⟨v, (hshows _ _ _).mpr (.inl hi), (hold hi).trans hd⟩

/-- A view that is released is not counted any more. -/
theorem viewSlots_unview (hs : Registered s) {token : Token}
    (hfound : s.handles.table.lookup token .view = (.ok, some (.view k v)))
    (hhandles : s'.handles = s.handles.release (s.views k v).token .view)
    (hviews : ∀ j w, (s'.views j w).dataset = (s.views j w).dataset) :
    (s.viewSlots k (s.views k v).dataset).card =
        (s'.viewSlots k (s.views k v).dataset).card + 1 ∧
      (∀ j e, (j, e) ≠ (k, (s.views k v).dataset) → s'.viewSlots j e = s.viewSlots j e) ∧
      ¬ s'.Holds (.view k v) := by
  obtain ⟨hshows₁, -⟩ := HandleTable.lookup_shows hfound
  generalize (unpackSlot token).toNat = i₁ at hshows₁
  obtain ⟨-, htoken, -⟩ := hs.shows hshows₁
  have htoken : (s.views k v).token = s.handles.table.tokenAt i₁ := htoken
  have hshows : ∀ i j w, s'.handles.table.Shows i .view (.view j w) ↔
      s.handles.table.Shows i .view (.view j w) ∧ i ≠ i₁ := by
    intro i j w
    rw [hhandles]
    refine (hs.slab.release_shows _ .view i .view (.view j w)).trans (and_congr_right fun hi => ?_)
    refine not_congr ⟨fun heq => ?_, fun heq => ⟨rfl, by rw [heq, htoken]⟩⟩
    have hslot := congrArg (fun t => (unpackSlot t).toNat) (heq.2.trans htoken)
    rw [HandleTable.unpackSlot_tokenAt (hs.slab.lt_max hi.1),
      HandleTable.unpackSlot_tokenAt (hs.slab.lt_max hshows₁.1)] at hslot
    exact hslot
  -- the slot is bound to this view only
  have honly : ∀ {j w}, s.handles.table.Shows i₁ .view (.view j w) → j = k ∧ w = v := by
    intro j w hi
    have heq := Option.some.inj (hi.2.2.2.symm.trans hshows₁.2.2.2)
    exact Payload.view.inj heq
  refine ⟨?_, fun j e hne => ?_, ?_⟩
  · have herase : s'.viewSlots k (s.views k v).dataset =
        (s.viewSlots k (s.views k v).dataset).erase i₁ := by
      ext i
      rw [Finset.mem_erase, mem_viewSlots, mem_viewSlots]
      constructor
      · rintro ⟨w, hi, hd⟩
        obtain ⟨hbefore, hne⟩ := (hshows i k w).mp hi
        exact ⟨hne, w, hbefore, (hviews k w).symm.trans hd⟩
      · rintro ⟨hne, w, hi, hd⟩
        exact ⟨w, (hshows i k w).mpr ⟨hi, hne⟩, (hviews k w).trans hd⟩
    have hmem : i₁ ∈ s.viewSlots k (s.views k v).dataset :=
      mem_viewSlots.mpr ⟨v, hshows₁, rfl⟩
    rw [herase, Finset.card_erase_add_one hmem]
  · ext i
    rw [mem_viewSlots, mem_viewSlots]
    constructor
    · rintro ⟨w, hi, hd⟩
      exact ⟨w, ((hshows i j w).mp hi).1, (hviews j w).symm.trans hd⟩
    · rintro ⟨w, hi, hd⟩
      refine ⟨w, (hshows i j w).mpr ⟨hi, ?_⟩, (hviews j w).trans hd⟩
      rintro rfl
      obtain ⟨rfl, rfl⟩ := honly hi
      exact hne (by rw [hd])
  · rintro ⟨i, hi⟩
    obtain ⟨hbefore, hne⟩ := (hshows i k v).mp hi
    exact hne (hs.unique hbefore hshows₁)

/-- There are no more live views than slots. -/
theorem liveViews_le (hs : Registered s) (k d : Nat) : s.liveViews k d ≤ maxUint32 := by
  calc s.liveViews k d ≤ (Finset.range s.handles.table.size).card := Finset.card_filter_le _ _
    _ = s.handles.table.size := Finset.card_range _
    _ ≤ maxUint32 := hs.slab.size_le

/-! ### Releases -/

/-- Only `release_view` releases a buffer that a queue has handed out. -/
theorem Cause.not_release {iop : IoOp} (h : Cause s op k iop)
    (hop : ∀ token, op ≠ .releaseView token) : iop ≠ .read q (.release c) := by
  cases h with
  | run k iop lt permitted =>
    rintro rfl
    simp [Process.permitted] at permitted
  | release token => exact absurd rfl (hop token)
  | write | get | next | flush | cancel => simp

/-- **What a step does to a call that was made before on a queue.** The buffer that it was given is
released by the `release_view` of its view, and by nothing else. -/
theorem step_lasts (hs : Registered s) (hstep : s.step op = some s')
    (hc : c < ((s.io k).queues q).ncalls) :
    PrefetchRun.Lasts ((s.io k).queues q) ((s'.io k).queues q) c ∧
      ((((s'.io k).queues q).calls c).released = (((s.io k).queues q).calls c).released ∨
        ∃ token v, op = .releaseView token ∧
          s.handles.table.lookup token .view = (.ok, some (.view k v)) ∧
          (s.views k v).queue = q ∧ (s.views k v).call = c ∧ s'.views ≠ s.views) := by
  -- where the core does not move, nothing happens to the call
  have hsame : s'.io k = s.io k →
      PrefetchRun.Lasts ((s.io k).queues q) ((s'.io k).queues q) c ∧
        (((s'.io k).queues q).calls c).released = (((s.io k).queues q).calls c).released := by
    intro hio
    rw [hio]
    exact ⟨⟨hc, fun _ _ hpc => hpc⟩, rfl⟩
  -- only `release_view` releases buffers, so that step is looked at by itself
  by_cases hop : ∃ token, op = .releaseView token
  · obtain ⟨token, rfl⟩ := hop
    cases hcall : s.call with
    | idle =>
      simp only [Process.step, hcall] at hstep
      obtain ⟨x, hx, hbody⟩ | ⟨status, rfl⟩ := dispatch_cases hstep
      · cases x with
        | view j v =>
          simp only [releaseView, Option.ite_none_left_eq_some] at hbody
          obtain ⟨s₁, hs₁, rfl⟩ := Option.map_eq_some_iff.mp hbody.2
          have hran := ioStep_ran hs₁
          by_cases hj : k = j
          · subst hj
            obtain ⟨hlasts, hreleased⟩ := IoRun.step_lasts (c := c) hran.step hc
            refine ⟨hlasts, ?_⟩
            -- its view is of this call, or of another
            by_cases hqc : (s.views k v).queue = q ∧ (s.views k v).call = c
            · refine .inr ⟨token, v, rfl, hx, hqc.1, hqc.2, fun heq => ?_⟩
              obtain ⟨-, -, -, -, hfreed⟩ := hs.shows (HandleTable.lookup_shows hx).1
              have hview := congrArg ViewRecord.freed (congrFun (congrFun heq k) v)
              simp [setView, setDataset, ret, hfreed] at hview
            · refine .inl (hreleased fun heq => hqc ?_)
              obtain ⟨hqueue, hrelease⟩ := IoOp.read.inj heq
              exact ⟨hqueue, ReadOp.release.inj hrelease⟩
          · obtain ⟨hlasts, hreleased⟩ := hsame (hran.elsewhere k hj)
            exact ⟨hlasts, .inl hreleased⟩
        | core | dataset | io => cases hbody
      · obtain ⟨hlasts, hreleased⟩ := hsame rfl
        exact ⟨hlasts, .inl hreleased⟩
    | _ => simp [Process.step, hcall] at hstep
  -- any other step moves at most one core, and releases nothing
  · have hnot : ∀ token, op ≠ .releaseView token := fun token heq => hop ⟨token, heq⟩
    cases step_inside hstep with
    | still io | observes _ _ _ _ _ io =>
      obtain ⟨hlasts, hreleased⟩ := hsame (congrFun io k)
      exact ⟨hlasts, .inl hreleased⟩
    | moves j iop t step elsewhere cause =>
      by_cases hj : k = j
      · subst hj
        obtain ⟨hlasts, hreleased⟩ := IoRun.step_lasts (c := c) step hc
        exact ⟨hlasts, .inl (hreleased (cause.not_release hnot))⟩
      · obtain ⟨hlasts, hreleased⟩ := hsame (elsewhere k hj)
        exact ⟨hlasts, .inl hreleased⟩

/-! ### The invariant -/

/-- A view and the call of `get_buffer` that its buffer came from. -/
structure Backed (io : IoRun) (x : ViewRecord) : Prop where
  made : x.call < (io.queues x.queue).ncalls
  given : ∃ b, ((io.queues x.queue).calls x.call).pc = .returned .ok (some b)
  released : ((io.queues x.queue).calls x.call).released = x.freed

structure Viewed (s : Process) : Prop where
  count : ∀ k d, (s.datasets k d).outstandingViews = s.liveViews k d
  backed : ∀ k v, v < (s.cores k).nviews → Backed (s.io k) (s.views k v)
  opened : ∀ k v, v < (s.cores k).nviews → (s.views k v).dataset < (s.cores k).ndatasets
  apart : ∀ k v w, v < (s.cores k).nviews → w < (s.cores k).nviews →
    (s.views k v).queue = (s.views k w).queue → (s.views k v).call = (s.views k w).call → v = w
  -- the buffer that a `read` waits for will be that of no other view
  reading : ∀ k d q c, s.call = .reading k d q c → d < (s.cores k).ndatasets ∧
    c < ((s.io k).queues q).ncalls ∧ (((s.io k).queues q).calls c).released = false ∧
    ∀ v, v < (s.cores k).nviews → ¬ ((s.views k v).queue = q ∧ (s.views k v).call = c)

/-- A view whose buffer is not released in the step. -/
theorem Backed.kept {x : ViewRecord} (h : Backed (s.io k) x) (hs : Registered s)
    (hstep : s.step op = some s')
    (hkept : ∀ token v, op = .releaseView token →
      s.handles.table.lookup token .view = (.ok, some (.view k v)) →
      (s.views k v).queue = x.queue → (s.views k v).call = x.call → s'.views ≠ s.views → False) :
    Backed (s'.io k) x := by
  obtain ⟨hlasts, hreleased⟩ := step_lasts hs hstep h.made
  obtain ⟨b, hb⟩ := h.given
  refine ⟨hlasts.lt, ⟨b, hlasts.returned _ _ hb⟩, ?_⟩
  rcases hreleased with hsame | ⟨token, v, hop, hfound, hqueue, hcall, hviews⟩
  · rw [hsame]
    exact h.released
  · exact (hkept token v hop hfound hqueue hcall hviews).elim

/-- The views are as they were. -/
theorem Viewed.keep (h : Viewed s) (hs : Registered s) (hstep : s.step op = some s')
    (hviews : s'.views = s.views)
    (hcores : ∀ k, (k = s.ncores ∧ (s'.cores k).nviews = 0) ∨
      ((s'.cores k).nviews = (s.cores k).nviews ∧
        (s.cores k).ndatasets ≤ (s'.cores k).ndatasets))
    (hcount : ∀ k d, (s'.datasets k d).outstandingViews = s'.liveViews k d)
    (hreading : ∀ k d q c, s'.call = .reading k d q c → s.call = .reading k d q c ∨
      (d < (s'.cores k).ndatasets ∧ c = ((s.io k).queues q).ncalls ∧
        c < ((s'.io k).queues q).ncalls ∧
        (((s'.io k).queues q).calls c).released = false)) : Viewed s' where
  count := hcount
  backed k v hv := by
    have hlt : v < (s.cores k).nviews := by
      rcases hcores k with ⟨-, hzero⟩ | ⟨hsame, -⟩ <;> omega
    rw [hviews]
    exact (h.backed k v hlt).kept hs hstep fun _ _ _ _ _ _ hne => hne hviews
  opened k v hv := by
    rw [hviews]
    rcases hcores k with ⟨-, hzero⟩ | ⟨hsame, hle⟩
    · omega
    · exact (h.opened k v (hsame ▸ hv)).trans_le hle
  apart k v w hv hw := by
    rw [hviews]
    rcases hcores k with ⟨-, hzero⟩ | ⟨hsame, -⟩
    · omega
    · exact h.apart k v w (hsame ▸ hv) (hsame ▸ hw)
  reading k d q c hcall := by
    rcases hreading k d q c hcall with hbefore | ⟨hd, hc, hlt, hreleased⟩
    -- the same call as before: no view was made of it meanwhile
    · obtain ⟨hd, hlt, hreleased, hfree⟩ := h.reading k d q c hbefore
      have hk := (hs.home k (by rw [hbefore]; rfl)).1
      rcases hcores k with ⟨rfl, -⟩ | ⟨hsame, hle⟩
      · exact absurd hk (Nat.lt_irrefl _)
      · obtain ⟨hlasts, hreleased'⟩ := step_lasts hs hstep hlt
        refine ⟨hd.trans_le hle, hlasts.lt, ?_, ?_⟩
        · rcases hreleased' with heq | ⟨-, -, -, -, -, -, hne⟩
          · exact heq.trans hreleased
          · exact absurd hviews hne
        · rw [hviews, hsame]
          exact hfree
    -- a call that has just begun: every view is of an earlier one
    · refine ⟨hd, hlt, hreleased, fun v hv => ?_⟩
      rw [hviews]
      rintro ⟨rfl, rfl⟩
      have hmade : v < (s.cores k).nviews := by
        rcases hcores k with ⟨-, hzero⟩ | ⟨hsame, -⟩ <;> omega
      exact absurd hc (Nat.ne_of_lt (h.backed k v hmade).made)

/-- Where a `read` that is under way after a quiet step comes from. -/
theorem Goes.reading (h : Goes s op s') (hs : Registered s) (same : Quiet s s') (k d q c : Nat)
    (hcall : s'.call = .reading k d q c) : s.call = .reading k d q c ∨
      (d < (s'.cores k).ndatasets ∧ c = ((s.io k).queues q).ncalls ∧
        c < ((s'.io k).queues q).ncalls ∧
        (((s'.io k).queues q).calls c).released = false) := by
  cases h with
  | stays after => exact .inl (after ▸ hcall)
  | returns after => cases after.symm.trans hcall
  | waits j c after => cases after.symm.trans hcall
  | onward j before usual after usual' on => exact absurd hcall (on.reading k d q c)
  -- the read begins now, and its dataset is open
  | begins j e before live after usual' begun =>
    obtain ⟨rfl, hc, hlt, hreleased⟩ := begun.reading k d q c hcall
    rw [hcall] at after
    obtain rfl := Option.some.inj after
    obtain ⟨-, hd, -⟩ := hs.active_of_holds live
    refine .inr ⟨?_, hc, hlt, hreleased⟩
    rw [(face_eq_core (same.cores k)).2.1]
    exact hd
  | stops j token before isFinalize found after => cases after.symm.trans hcall
  | joins j before after => cases after.symm.trans hcall

/-- The step mints a view for which there is no slot. -/
def crowds (s : Process) : ApiOp → Bool
  | .mint =>
    match s.call with
    | .reading k _ q c =>
      match (((s.io k).queues q).calls c).pc with
      -- only a read that has its buffer inserts a handle
      | .returned .ok (some _) => !decide s.handles.table.Room
      | _ => false
    | _ => false
  | _ => false

/-- A counter after an update of one record. -/
theorem updated_outstanding {f : Nat → Nat → OpenRecord} {j e n : Nat} {x : OpenRecord}
    (hother : (j, e) ≠ (k, d) → (f j e).outstandingViews = n)
    (hself : (j, e) = (k, d) → x.outstandingViews = n) :
    (Function.update f k (Function.update (f k) d x) j e).outstandingViews = n := by
  by_cases heq : j = k ∧ e = d
  · obtain ⟨rfl, rfl⟩ := heq
    rw [Lts.update_update_self]
    exact hself rfl
  · rw [Lts.update_update_of_ne heq]
    exact hother fun hsame => heq (Prod.mk.inj hsame)

/-- A new dataset has no views. -/
theorem Viewed.liveViews_new (h : Viewed s) (hs : Registered s) :
    s.liveViews k (s.cores k).ndatasets = 0 := by
  refine Finset.card_eq_zero.mpr (Finset.eq_empty_of_forall_notMem fun i hi => ?_)
  obtain ⟨v, hshows, hd⟩ := mem_viewSlots.mp hi
  obtain ⟨-, -, -, hv, -⟩ := hs.shows hshows
  have hlt := h.opened k v hv
  rw [hd] at hlt
  exact Nat.lt_irrefl _ hlt

/-- A view is made, and finds a slot. -/
theorem Viewed.mint (h : Viewed s) (hs : Registered s) (hs' : Registered s')
    (hstep : s.step op = some s') (hroom : s.handles.table.Room) {b c' : Nat} {token : Token}
    (before : s.call = .reading k d q c)
    (pc : (((s.io k).queues q).calls c).pc = .returned .ok (some b))
    (handles : s'.handles = s.handles.insert .view (.view k (s.cores k).nviews))
    (cores : s'.cores = Function.update s.cores k
      { s.cores k with nviews := (s.cores k).nviews + 1 })
    (datasets : s'.datasets = Function.update s.datasets k (Function.update (s.datasets k) d
      { s.datasets k d with outstandingViews := u64 ((s.datasets k d).outstandingViews + 1) }))
    (views : s'.views = Function.update s.views k (Function.update (s.views k)
      (s.cores k).nviews { dataset := d, queue := q, call := c, token := token }))
    (after : s'.call = .advancing k q c') (isMint : op = .mint) : Viewed s' := by
  obtain ⟨hd, hc, hreleased, hfree⟩ := h.reading k d q c before
  have hnot : ∀ token, op ≠ .releaseView token := by
    rintro token rfl
    cases isMint
  have hold : ∀ j w, (j ≠ k ∨ w < (s.cores k).nviews) → s'.views j w = s.views j w := by
    rintro j w hjw
    rw [views, Lts.update_update_of_ne]
    rintro ⟨rfl, rfl⟩
    exact Nat.lt_irrefl _ (hjw.resolve_left fun hne => hne rfl)
  have hnew : s'.views k (s.cores k).nviews =
      { dataset := d, queue := q, call := c, token := token } := by
    rw [views, Lts.update_update_self]
  have hkept : ∀ j w, w < (s.cores j).nviews → Backed (s'.io j) (s.views j w) := fun j w hw =>
    (h.backed j w hw).kept hs hstep fun token _ hop => absurd hop (hnot token)
  -- a view of `s'` is an old one or the new one
  have hcases : ∀ j w, w < (s'.cores j).nviews →
      (w < (s.cores j).nviews ∧ s'.views j w = s.views j w) ∨
        (j = k ∧ w = (s.cores k).nviews) := by
    intro j w hw
    rw [cores] at hw
    by_cases hj : j = k
    · subst hj
      rw [Function.update_self] at hw
      have hle : w < (s.cores j).nviews + 1 := hw
      rcases Nat.lt_succ_iff_lt_or_eq.mp hle with hlt | heq
      · exact .inl ⟨hlt, hold j w (.inr hlt)⟩
      · exact .inr ⟨rfl, heq⟩
    · rw [Function.update_of_ne hj] at hw
      exact .inl ⟨hw, hold j w (.inl hj)⟩
  have hndatasets : ∀ j, (s'.cores j).ndatasets = (s.cores j).ndatasets := by
    intro j
    rw [cores]
    exact Lts.apply_update_eq CoreRecord.ndatasets (by rfl) j
  refine ⟨fun j e => ?_, fun j w hw => ?_, fun j w hw => ?_, fun j v w hv hw hqueue hcall => ?_,
    fun j e q' c'' hcall => by cases after.symm.trans hcall⟩
  · obtain ⟨hself, hothers⟩ := viewSlots_mint hs hs' hroom handles views
    rw [datasets]
    refine updated_outstanding (fun hne => ?_) fun heq => ?_
    · rw [h.count j e, liveViews, liveViews, hothers j e hne]
    · obtain ⟨rfl, rfl⟩ := Prod.mk.inj heq
      have hbound := liveViews_le hs j e
      have hself : s'.liveViews j e = s.liveViews j e + 1 := hself
      show u64 _ = _
      rw [h.count, hself, u64, Nat.mod_eq_of_lt]
      unfold maxUint32 at hbound
      omega
  · rcases hcases j w hw with ⟨hlt, heq⟩ | ⟨rfl, rfl⟩
    · rw [heq]
      exact hkept j w hlt
    · obtain ⟨hlasts, hsame⟩ := step_lasts hs hstep hc
      rw [hnew]
      refine ⟨hlasts.lt, ⟨b, hlasts.returned _ _ pc⟩, ?_⟩
      rcases hsame with heq | ⟨token, -, hop, -⟩
      · exact heq.trans hreleased
      · exact absurd hop (hnot token)
  · rw [hndatasets]
    rcases hcases j w hw with ⟨hlt, heq⟩ | ⟨rfl, rfl⟩
    · rw [heq]
      exact h.opened j w hlt
    · rw [hnew]
      exact hd
  · rcases hcases j v hv with ⟨hv, hveq⟩ | ⟨rfl, rfl⟩
    · rcases hcases j w hw with ⟨hw, hweq⟩ | ⟨rfl, rfl⟩
      · rw [hveq, hweq] at hqueue hcall
        exact h.apart j v w hv hw hqueue hcall
      · rw [hveq, hnew] at hqueue hcall
        exact absurd ⟨hqueue, hcall⟩ (hfree v hv)
    · rcases hcases j w hw with ⟨hw, hweq⟩ | ⟨-, rfl⟩
      · rw [hnew, hweq] at hqueue hcall
        exact absurd ⟨hqueue.symm, hcall.symm⟩ (hfree w hw)
      · rfl

theorem Viewed.unview (h : Viewed s) (hs : Registered s) (hstep : s.step op = some s')
    {token : Token} (found : s.handles.table.lookup token .view = (.ok, some (.view k v)))
    (handles : s'.handles = s.handles.release (s.views k v).token .view)
    (cores : s'.cores = s.cores)
    (datasets : s'.datasets = Function.update s.datasets k (Function.update (s.datasets k)
      (s.views k v).dataset
      { s.datasets k (s.views k v).dataset with
        outstandingViews :=
          u64 ((s.datasets k (s.views k v).dataset).outstandingViews + (2 ^ 64 - 1)) }))
    (views : s'.views = Function.update s.views k (Function.update (s.views k) v
      { s.views k v with freed := true }))
    (after : s'.call = .idle)
    (queue : (s.ioOf k).step (.read (s.views k v).queue (.release (s.views k v).call)) =
      some (s'.io k))
    (isRelease : op = .releaseView token) : Viewed s' := by
  obtain ⟨-, -, -, hv, -⟩ := hs.shows (HandleTable.lookup_shows found).1
  have hself : s'.views k v = { s.views k v with freed := true } := by
    rw [views, Lts.update_update_self]
  have hother : ∀ j w, (j, w) ≠ (k, v) → s'.views j w = s.views j w := by
    intro j w hne
    rw [views, Lts.update_update_of_ne]
    rintro ⟨rfl, rfl⟩
    exact hne rfl
  -- only `freed` changes
  have hfields : ∀ j w, (s'.views j w).dataset = (s.views j w).dataset ∧
      (s'.views j w).queue = (s.views j w).queue ∧ (s'.views j w).call = (s.views j w).call := by
    intro j w
    by_cases heq : (j, w) = (k, v)
    · obtain ⟨rfl, rfl⟩ := Prod.mk.inj heq
      rw [hself]
      exact ⟨rfl, rfl, rfl⟩
    · rw [hother j w heq]
      exact ⟨rfl, rfl, rfl⟩
  refine ⟨fun j e => ?_, fun j w hw => ?_, fun j w hw => ?_, fun j u w hu hw hqueue hcall => ?_,
    fun j e q' c' hcall => by cases after.symm.trans hcall⟩
  · obtain ⟨hcount, hothers, -⟩ := viewSlots_unview hs found handles fun j w => (hfields j w).1
    rw [datasets]
    refine updated_outstanding (fun hne => ?_) fun heq => ?_
    · rw [h.count j e, liveViews, liveViews, hothers j e hne]
    · obtain ⟨rfl, rfl⟩ := Prod.mk.inj heq
      have hbound := liveViews_le hs j (s.views j v).dataset
      have hcount : s.liveViews j (s.views j v).dataset =
          s'.liveViews j (s.views j v).dataset + 1 := hcount
      show u64 _ = _
      rw [h.count, hcount, u64]
      unfold maxUint32 at hbound
      omega
  · rw [cores] at hw
    by_cases heq : (j, w) = (k, v)
    · obtain ⟨rfl, rfl⟩ := Prod.mk.inj heq
      obtain ⟨hmade, ⟨b, hgiven⟩, -⟩ := h.backed j w hw
      obtain ⟨hlasts, -⟩ := step_lasts hs hstep hmade
      obtain ⟨r, hr, hio⟩ := Option.map_eq_some_iff.mp (IoRun.step_read queue).1
      obtain ⟨-, -, -, -, hreleased⟩ := PrefetchRun.step_release hr
      rw [hself]
      refine ⟨hlasts.lt, ⟨b, hlasts.returned _ _ hgiven⟩, ?_⟩
      rw [← hio]
      simpa using hreleased
    · rw [hother j w heq]
      refine (h.backed j w hw).kept hs hstep fun token' u hop hfound hqueue hcall _ => heq ?_
      obtain rfl := ApiOp.releaseView.inj (isRelease.symm.trans hop)
      obtain ⟨rfl, rfl⟩ := Payload.view.inj (Option.some.inj (congrArg Prod.snd
        (found.symm.trans hfound)))
      rw [h.apart k v w hv hw hqueue hcall]
  · rw [cores] at hw ⊢
    rw [(hfields j w).1]
    exact h.opened j w hw
  · rw [cores] at hu hw
    rw [(hfields j u).2.1, (hfields j w).2.1] at hqueue
    rw [(hfields j u).2.2, (hfields j w).2.2] at hcall
    exact h.apart j u w hu hw hqueue hcall

/-- **The four places agree**, after a step that finds a slot if it needs one. -/
theorem Viewed.step (h : Viewed s) (hs : Registered s) (hs' : Registered s')
    (hok : ¬ s.crowds op = true) (hstep : s.step op = some s') : Viewed s' := by
  -- only `view` and `unview` change what is counted; the other moves leave views and their slots
  cases step_moves hstep with
  | quiet same goes =>
    refine h.keep hs hstep same.views (fun j => ?_) (fun j e => ?_) (goes.reading hs same)
    · obtain ⟨-, hndatasets, hnviews, -⟩ := face_eq_core (same.cores j)
      exact .inr ⟨hnviews, hndatasets.ge⟩
    · rw [(face_eq_dataset (same.datasets j e)).2.2.1, h.count]
      refine congrArg Finset.card (viewSlots_congr (fun i v => ?_) fun v => ?_).symm
      · rw [same.handles]
      · rw [same.views]
  -- a new handle is not one of a view
  | core before handles ncores cores datasets views after =>
    refine h.keep hs hstep views (fun j => ?_) (fun j e => ?_)
      fun j e q c hcall => by cases after.symm.trans hcall
    · rw [cores]
      by_cases hj : j = s.ncores
      · subst hj
        rw [Function.update_self]
        exact .inl ⟨rfl, rfl⟩
      · rw [Function.update_of_ne hj]
        exact .inr ⟨rfl, le_rfl⟩
    · rw [datasets, h.count, liveViews, liveViews, viewSlots_insert hs (by simp) handles views]
  | dataset k mode before live handles ncores cores datasets views after =>
    have hcount : ∀ j e, s'.liveViews j e = s.liveViews j e := fun j e => by
      rw [liveViews, liveViews, viewSlots_insert hs (by simp) handles views]
    refine h.keep hs hstep views (fun j => ?_) (fun j e => ?_)
      fun j e q c hcall => by cases after.symm.trans hcall
    · rw [cores]
      by_cases hj : j = k
      · subst hj
        rw [Function.update_self]
        exact .inr ⟨rfl, Nat.le_succ _⟩
      · rw [Function.update_of_ne hj]
        exact .inr ⟨rfl, le_rfl⟩
    -- the new dataset has no views, for none of it was ever made
    · rw [datasets, hcount]
      refine updated_outstanding (fun _ => h.count j e) fun heq => ?_
      obtain ⟨rfl, rfl⟩ := Prod.mk.inj heq
      exact (h.liveViews_new hs).symm
  | io k c before pc handles ncores cores datasets views after =>
    refine h.keep hs hstep views (fun j => ?_) (fun j e => ?_) fun j e q c hcall => ?_
    · rw [cores]
      exact .inr ⟨rfl, le_rfl⟩
    · rw [datasets, h.count, liveViews, liveViews, viewSlots_insert hs (by simp) handles views]
    · rw [after, before] at hcall
      cases hcall
  -- the step that must find a slot
  | view k d q c b c' before pc handles ncores cores datasets views after isMint =>
    have hroom : s.handles.table.Room := by
      subst isMint
      simpa [crowds, before, pc] using hok
    exact h.mint hs hs' hstep hroom before pc handles cores datasets views after isMint
  | unview k v token before found alive handles ncores cores datasets views after queue isRelease =>
    exact h.unview hs hstep found handles cores datasets views after queue isRelease
  -- the released handle is the one of the dataset, and its counter stays
  | close k d result before handles ncores cores others self views after =>
    refine h.keep hs hstep views (fun j => ?_) (fun j e => ?_)
      fun j e q c hcall => by cases after.symm.trans hcall
    · rw [cores]
      exact .inr ⟨rfl, le_rfl⟩
    · have hsame : (s'.datasets j e).outstandingViews = (s.datasets j e).outstandingViews := by
        by_cases heq : (j, e) = (k, d)
        · obtain ⟨rfl, rfl⟩ := Prod.mk.inj heq
          exact (face_eq_dataset self).2.2.1
        · exact (face_eq_dataset (others j e heq)).2.2.1
      rw [hsame, h.count, liveViews, liveViews, viewSlots_release hs (by simp) handles views]
  | tear k d rest before mem handles ncores cores datasets views after =>
    refine h.keep hs hstep views (fun j => ?_) (fun j e => ?_)
      fun j e q c hcall => by cases after.symm.trans hcall
    · rw [cores]
      exact .inr ⟨rfl, le_rfl⟩
    · rw [(face_eq_dataset (datasets j e)).2.2.1, h.count, liveViews, liveViews]
      -- a dataset that found no slot has no handle to release
      split at handles
      · refine congrArg Finset.card (viewSlots_congr (fun i v => ?_) fun v => ?_).symm
        · rw [handles]
        · rw [views]
      · rw [viewSlots_release hs (by simp) handles views]
  | destroy k before handles ncores cores datasets views after =>
    refine h.keep hs hstep views (fun j => ?_) (fun j e => ?_)
      fun j e q c hcall => by cases after.symm.trans hcall
    · rw [cores]
      exact .inr ⟨Lts.apply_update_eq CoreRecord.nviews (by rfl) j,
        (Lts.apply_update_eq CoreRecord.ndatasets (by rfl) j).ge⟩
    · rw [datasets, h.count, liveViews, liveViews, viewSlots_release hs (by simp) handles views]

/-- The four places agree in every run in which views find slots. -/
theorem Viewed.of_reach (h : system.Reach (fun s op => ¬ s.crowds op = true) s) : Viewed s := by
  refine h.invariant_of (J := Registered) (fun _ h => .of_reach h) (fun s hinit _ => ?_)
    fun s op s' hs hs' hviewed hok hstep => hviewed.step hs hs' hok hstep
  obtain ⟨hhandles, -, hcores, -, hdatasets, -, -, -, hcall, -⟩ := hinit
  refine ⟨fun k d => ?_, fun k v hv => ?_, fun k v hv => ?_, fun k v w hv => ?_,
    fun k d q c h => by cases hcall.symm.trans h⟩
  · rw [hdatasets, liveViews, viewSlots, hhandles]
    rfl
  all_goals
    rw [hcores] at hv
    exact absurd hv (Nat.not_lt_zero v)

/-! ### Buffers -/

/-- The staging buffer of a view. -/
def bufferOf (s : Process) (k v : Nat) : Option Nat :=
  (((s.io k).queues (s.views k v).queue).calls (s.views k v).call).pc.handed

/-- A live view holds its buffer. -/
theorem Viewed.owner (h : Viewed s) (hs : Registered s) (hisolated : (s.io k).Isolated)
    (hold : s.Holds (.view k v)) :
    ∃ b, (((s.io k).queues (s.views k v).queue).calls (s.views k v).call).pc =
        .returned .ok (some b) ∧
      (s.io k).owner b = some (.queue (s.views k v).queue (.caller (s.views k v).call)) := by
  obtain ⟨-, hv, hfreed⟩ := hs.active_of_holds hold
  obtain ⟨hmade, ⟨b, hgiven⟩, hreleased⟩ := h.backed k v hv
  refine ⟨b, hgiven, ?_⟩
  have hclaims := (hisolated.custody (s.views k v).queue).claims b (.caller (s.views k v).call)
  -- the call has been handed the buffer and has not released it
  have howner := hclaims.mpr ⟨hmade, by
    show (((s.io k).queues _).calls _).pc.handed = _
    rw [hgiven]
    rfl, hreleased.trans hfreed⟩
  obtain ⟨agent, hagent, hkeeper⟩ := Option.map_eq_some_iff.mp howner
  rw [hagent]
  cases agent with
  -- of the two kinds of owners only the queue can be meant
  | write c => cases hkeeper
  | queue q keeper =>
    simp only [Agent.keeper] at hkeeper
    split at hkeeper
    · next hq => rw [hq, hkeeper]
    · cases hkeeper

/-- What a step does to a live view: nothing, or the step is its `release_view`. -/
theorem step_view (hs : Registered s) (hstep : s.step op = some s') (hold : s.Holds (.view k v)) :
    (s'.Holds (.view k v) ∧ s'.views k v = s.views k v) ∨
      (∃ token, op = .releaseView token ∧
        s.handles.table.lookup token .view = (.ok, some (.view k v)) ∧
        ¬ s'.Holds (.view k v) ∧ (s'.views k v).freed = true ∧ s'.cores = s.cores ∧
        s'.ncores = s.ncores ∧
        (s.ioOf k).step (.read (s.views k v).queue (.release (s.views k v).call)) =
          some (s'.io k)) := by
  obtain ⟨i, hi⟩ := hold
  obtain ⟨-, -, -, hv, -⟩ := hs.shows hi
  have hinsert : ∀ {kind x}, s'.handles = s.handles.insert kind x → s'.Holds (.view k v) := by
    intro kind x hhandles
    refine ⟨i, ?_⟩
    rw [hhandles]
    exact (hs.slab.insert_shows kind x i .view (.view k v)).mpr (.inl hi)
  have hrelease : ∀ {token kind}, kind ≠ .view → s'.handles = s.handles.release token kind →
      s'.Holds (.view k v) := by
    intro token kind hkind hhandles
    refine ⟨i, ?_⟩
    rw [hhandles]
    exact (hs.slab.release_shows token kind i .view (.view k v)).mpr
      ⟨hi, fun heq => hkind heq.1.symm⟩
  cases step_moves hstep with
  | quiet same goes => exact .inl ⟨⟨i, by rw [same.handles]; exact hi⟩, by rw [same.views]⟩
  | core before handles ncores cores datasets views =>
    exact .inl ⟨hinsert handles, by rw [views]⟩
  | dataset k mode before live handles ncores cores datasets views =>
    exact .inl ⟨hinsert handles, by rw [views]⟩
  | io k c before pc handles ncores cores datasets views =>
    exact .inl ⟨hinsert handles, by rw [views]⟩
  | view j d q c b c' before pc handles ncores cores datasets views =>
    refine .inl ⟨hinsert handles, ?_⟩
    rw [views, Lts.update_update_of_ne]
    rintro ⟨rfl, rfl⟩
    exact Nat.lt_irrefl _ hv
  | unview j w token before found alive handles ncores cores datasets views after queue
      isRelease =>
    by_cases heq : (k, v) = (j, w)
    · obtain ⟨rfl, rfl⟩ := Prod.mk.inj heq
      have hviews : ∀ j w, (s'.views j w).dataset = (s.views j w).dataset := by
        intro j w
        rw [views]
        exact Lts.apply_update_update_eq ViewRecord.dataset (by rfl) j w
      refine .inr ⟨token, isRelease, found, (viewSlots_unview hs found handles hviews).2.2, ?_,
        cores, ncores, queue⟩
      rw [views, Lts.update_update_self]
    · have hother : s'.views k v = s.views k v := by
        rw [views, Lts.update_update_of_ne]
        rintro ⟨rfl, rfl⟩
        exact heq rfl
      refine .inl ⟨⟨i, ?_⟩, hother⟩
      obtain ⟨hshows, -⟩ := HandleTable.lookup_shows found
      obtain ⟨-, htoken, -⟩ := hs.shows hshows
      have htoken : (s.views j w).token = _ := htoken
      rw [handles]
      refine (hs.slab.release_shows _ .view i .view (.view k v)).mpr ⟨hi, fun hsame => heq ?_⟩
      -- the token names one slot, and a slot is bound to one view
      have hslot := congrArg (fun t => (unpackSlot t).toNat) (hsame.2.trans htoken)
      rw [HandleTable.unpackSlot_tokenAt (hs.slab.lt_max hi.1),
        HandleTable.unpackSlot_tokenAt (hs.slab.lt_max hshows.1)] at hslot
      have hpayload := Option.some.inj (hi.2.2.2.symm.trans (hslot ▸ hshows.2.2.2))
      obtain ⟨rfl, rfl⟩ := Payload.view.inj hpayload
      rfl
  | close j d result before handles ncores cores others self views =>
    exact .inl ⟨hrelease (by simp) handles, by rw [views]⟩
  | tear j d rest before mem handles ncores cores datasets views =>
    split at handles
    · exact .inl ⟨⟨i, by rw [handles]; exact hi⟩, by rw [views]⟩
    · exact .inl ⟨hrelease (by simp) handles, by rw [views]⟩
  | destroy j before handles ncores cores datasets views =>
    exact .inl ⟨hrelease (by simp) handles, by rw [views]⟩

/-- A view that is released stays released. -/
theorem step_freed (hstep : s.step op = some s')
    (h : k < s.ncores ∧ v < (s.cores k).nviews ∧ (s.views k v).freed = true) :
    k < s'.ncores ∧ v < (s'.cores k).nviews ∧ (s'.views k v).freed = true := by
  obtain ⟨hk, hv, hfreed⟩ := h
  cases step_moves hstep with
  | quiet same goes =>
    rw [same.ncores, same.views, (face_eq_core (same.cores k)).2.2.1]
    exact ⟨hk, hv, hfreed⟩
  | core before handles ncores cores datasets views =>
    rw [ncores, views, cores, Function.update_of_ne (Nat.ne_of_lt hk)]
    exact ⟨Nat.lt_succ_of_lt hk, hv, hfreed⟩
  | dataset j mode before live handles ncores cores datasets views =>
    rw [ncores, views, cores]
    exact ⟨hk, hv.trans_eq (Lts.apply_update_eq CoreRecord.nviews (by rfl) k).symm, hfreed⟩
  | view j d q c b c' before pc handles ncores cores datasets views =>
    -- the new view takes the next place, so `v` keeps its own
    have hnew : ¬ (k = j ∧ v = (s.cores j).nviews) := by
      rintro ⟨rfl, rfl⟩
      exact Nat.lt_irrefl _ hv
    rw [ncores, views, cores, Lts.update_update_of_ne hnew]
    refine ⟨hk, ?_, hfreed⟩
    by_cases hj : k = j
    · subst hj
      rw [Function.update_self]
      exact Nat.lt_succ_of_lt hv
    · rw [Function.update_of_ne hj]
      exact hv
  | unview j w token before found alive handles ncores cores datasets views =>
    rw [ncores, views, cores]
    refine ⟨hk, hv, ?_⟩
    by_cases heq : k = j ∧ v = w
    · obtain ⟨rfl, rfl⟩ := heq
      rw [Lts.update_update_self]
    · rw [Lts.update_update_of_ne heq]
      exact hfreed
  | io _ _ _ _ _ ncores cores _ views | close _ _ _ _ _ ncores cores _ _ views
  | tear _ _ _ _ _ _ ncores cores _ views =>
    rw [ncores, views, cores]
    exact ⟨hk, hv, hfreed⟩
  | destroy j before handles ncores cores datasets views =>
    rw [ncores, views, cores]
    exact ⟨hk, hv.trans_eq (Lts.apply_update_eq CoreRecord.nviews (by rfl) k).symm, hfreed⟩

/-! ### Closing -/

/-- What `close_dataset` has to report so far: the failure of a write or of the driver. -/
def Reports (s : Process) : Prop := ∀ k d r, s.call = .closing k d r ∨ s.call = .flushed k d r →
  r = .ok ∨ r = .backendFailure

/-- What a close reports after the driver's answer. -/
theorem caught_reports {r : AmioErr} (h : r = .ok ∨ r = .backendFailure) (ok : Bool) :
    r.caught ok = .ok ∨ r.caught ok = .backendFailure := by
  unfold AmioErr.caught
  split
  · exact .inr rfl
  · exact h

/-- A close reports success or the backend's failure, in every run. -/
theorem Reports.of_reach {ok : Process → ApiOp → Prop} (h : system.Reach ok s) : Reports s := by
  refine h.invariant_of (J := fun s => ∀ k, (s.io k).Isolated) (fun _ h => isolated_of_reach h)
    (fun s hinit _ k d r hcall => ?_) fun s op s' hisolated _ hs _ hstep j e r hcall => ?_
  · obtain ⟨-, -, -, -, -, -, -, -, hidle, -⟩ := hinit
    rw [hidle] at hcall
    rcases hcall with hcall | hcall <;> cases hcall
  · cases step_moves hstep with
    | quiet same goes =>
      cases goes with
      | stays after => exact hs j e r (by rwa [after] at hcall)
      -- the close goes on: the result is read from the record, or after the driver's answer
      | onward k before usual after usual' on =>
        rcases hcall with hcall | hcall
        · rw [on.closing j e r hcall, DatasetRecord.verdict]
          split
          · exact (hisolated j).writes.failing.code e
          · exact .inl rfl
        · obtain ⟨r₀, ok, hclosing, rfl⟩ := on.flushed j e r hcall
          exact caught_reports (hs j e r₀ (.inl hclosing)) ok
      | begins k d before live after usual' begun =>
        rcases hcall with hcall | hcall
        · exact absurd hcall (begun.closing j e r)
        · exact absurd hcall (begun.flushed j e r)
      | returns after | waits _ _ after | stops _ _ _ _ _ after | joins _ _ after =>
        rw [after] at hcall
        rcases hcall with hcall | hcall <;> cases hcall
    | io k c before pc handles ncores cores datasets views after =>
      rw [after, before] at hcall
      rcases hcall with hcall | hcall <;> cases hcall
    | core _ _ _ _ _ _ after | dataset _ _ _ _ _ _ _ _ _ after
    | view _ _ _ _ _ _ _ _ _ _ _ _ _ after | unview _ _ _ _ _ _ _ _ _ _ _ after
    | close _ _ _ _ _ _ _ _ _ _ after | tear _ _ _ _ _ _ _ _ _ _ after
    | destroy _ _ _ _ _ _ _ after =>
      rw [after] at hcall
      rcases hcall with hcall | hcall <;> cases hcall

/-- A close that was let through goes on until it returns, with something else than outstanding
views. -/
theorem step_isClose (hreports : Reports s) (hclose : s.call.isClose = true)
    (hstep : s.step op = some s') :
    s'.call.isClose = true ∨ (s'.call = .idle ∧ s'.last ≠ .viewsOutstanding) := by
  cases step_turns hstep with
  | runs _ _ ran =>
    rw [(ioStep_ran ran).call]
    exact .inl hclose
  | drains | drained | surfaces | flushesDriver | cancels => exact .inl rfl
  | @closesDriver ok k d r before =>
    -- what the driver says is all that the caller hears, and no driver reports outstanding views
    refine .inr ⟨rfl, ?_⟩
    show r.caught ok ≠ _
    rcases caught_reports (hreports k d r (.inr before)) ok with heq | heq <;> (rw [heq]; simp)
  | returns _ close => exact absurd (hclose.symm.trans close) (by decide)
  -- every other rule begins in a call that is not a close
  | observes before | mints before | joins before | tears before | destroys before =>
    rw [before] at hclose
    cases hclose
  | inits idle | opens idle | writes idle | resolves _ idle | reads idle | waits idle
  | flushes idle | releases idle | closes idle | finalizes idle =>
    rw [idle] at hclose
    cases hclose

/-! ### The four places -/

/-- The view accounting of a state. -/
structure Accounted (s : Process) : Prop where
  -- the counter is the number of live View handles, so that it has not wrapped around
  count : ∀ k d, (s.datasets k d).outstandingViews = s.liveViews k d
  -- a live view has a buffer of its own, which is not free
  buffer : ∀ k v, s.Holds (.view k v) → ∃ b, s.bufferOf k v = some b ∧
    b ∉ (s.io k).memory.pool.freeList ∧
    ∀ w, s.Holds (.view k w) → s.bufferOf k w = some b → w = v
  -- it keeps the buffer until its `release_view` frees it, after which the view is gone for good
  kept : ∀ k v b op s', s.Holds (.view k v) → s.bufferOf k v = some b → s.step op = some s' →
    (s'.Holds (.view k v) ∧ s'.bufferOf k v = some b) ∨
      (∃ token, op = .releaseView token ∧
        s.handles.table.lookup token .view = (.ok, some (.view k v)) ∧
        b ∈ (s'.io k).memory.pool.freeList ∧ ∀ s'', system.After s' s'' → ¬ s''.Holds (.view k v))
  released : ∀ token k v, s.handles.table.lookup token .view = (.ok, some (.view k v)) →
    s.call = .idle → (s.cores k).deleted = false →
    ∃ s', s.step (.releaseView token) = some s' ∧ s'.call = .idle ∧ s'.last = .ok
  -- outstanding views refuse a close, which then changes nothing
  refused : ∀ token k d, s.handles.table.lookup token .dataset = (.ok, some (.dataset k d)) →
    s.call = .idle → 0 < s.liveViews k d → s.step (.close token) = some (s.ret .viewsOutstanding)
  admitted : ∀ token k d, s.handles.table.lookup token .dataset = (.ok, some (.dataset k d)) →
    s.call = .idle → s.liveViews k d = 0 →
    ∃ s', s.step (.close token) = some s' ∧ s'.call.isClose = true
  closed : s.call.isClose = true → ∀ op s', s.step op = some s' →
    s'.call.isClose = true ∨ (s'.call = .idle ∧ s'.last ≠ .viewsOutstanding)

/-- The buffer of a view is free after its release. -/
theorem freed_of_release {b : Nat} (hisolated : (s.io k).Isolated) (hisolated' : (s'.io k).Isolated)
    (hpc : (((s.io k).queues q).calls c).pc = .returned .ok (some b))
    (howner : (s.io k).owner b = some (.queue q (.caller c)))
    (hstep : (s.ioOf k).step (.read q (.release c)) = some (s'.io k)) :
    b ∈ (s'.io k).memory.pool.freeList := by
  obtain ⟨r, hr, hio⟩ := Option.map_eq_some_iff.mp (IoRun.step_read hstep).1
  have hpool : (s'.io k).memory.pool = (s.io k).memory.pool.release b := by
    have hacts : ((s.ioOf k).asQueue q).acts (.release c) = [.release b] := by
      have hpc : (((s.ioOf k).asQueue q).calls c).pc = .returned .ok (some b) := hpc
      simp only [PrefetchRun.acts, hpc]
    rw [← hio]
    show (IoRun.run (s.io k).memory _).pool = _
    rw [hacts, IoRun.run_pool]
    rfl
  obtain ⟨hlt, hcount, -⟩ := hisolated.owned.held b _ howner
  refine (hisolated'.owned.wf.mem_iff b ?_).mpr ?_
  · rw [hpool, StagingPool.release_size]
    exact hlt
  · rw [hpool, StagingPool.release_refCount_self, hcount]

/-- **Views are accounted for** in every state of every run in which each view that is minted finds
a slot in the handle table. -/
theorem views_accounted (h : system.Reach (fun s op => ¬ s.crowds op = true) s) : Accounted s := by
  have hs := Registered.of_reach h
  have hviewed := Viewed.of_reach h
  have hisolated := isolated_of_reach h
  have hbuffer : ∀ {k v b}, s.Holds (.view k v) → s.bufferOf k v = some b →
      (((s.io k).queues (s.views k v).queue).calls (s.views k v).call).pc =
          .returned .ok (some b) ∧
        (s.io k).owner b = some (.queue (s.views k v).queue (.caller (s.views k v).call)) := by
    intro k v b hold hb
    obtain ⟨b', hpc, howner⟩ := hviewed.owner hs (hisolated k) hold
    rw [bufferOf, hpc] at hb
    obtain rfl := Option.some.inj hb
    exact ⟨hpc, howner⟩
  refine ⟨hviewed.count, fun k v hold => ?_, fun k v b op s' hold hb hstep => ?_,
    fun token k v hfound hidle halive => ?_, fun token k d hfound hidle hpos => ?_,
    fun token k d hfound hidle hzero => ?_, fun hclose op s' hstep => ?_⟩
  · obtain ⟨b, hpc, howner⟩ := hviewed.owner hs (hisolated k) hold
    refine ⟨b, by rw [bufferOf, hpc]; rfl, (hisolated k).owned.not_free howner,
      fun w hold' hw => ?_⟩
    obtain ⟨-, howner'⟩ := hbuffer hold' hw
    obtain ⟨hqueue, hkeeper⟩ := Agent.queue.inj (Option.some.inj (howner'.symm.trans howner))
    exact hviewed.apart k w v (hs.active_of_holds hold').2.1 (hs.active_of_holds hold).2.1 hqueue
      (Keeper.caller.inj hkeeper)
  · obtain ⟨hpc, howner⟩ := hbuffer hold hb
    obtain ⟨hk, hv, -⟩ := hs.active_of_holds hold
    rcases step_view hs hstep hold with ⟨hholds, hview⟩ |
      ⟨token, hop, hfound, -, hfreed, hcores, hncores, hqueue⟩
    · obtain ⟨hlasts, -⟩ := step_lasts hs hstep (hviewed.backed k v hv).made
      refine .inl ⟨hholds, ?_⟩
      rw [bufferOf, hview, hlasts.returned _ _ hpc]
      rfl
    · have hreach' : system.Reachable s' := .step h.reachable trivial hstep
      refine .inr ⟨token, hop, hfound, freed_of_release (hisolated k)
        (isolated_of_reach hreach' k) hpc howner hqueue, fun s'' hafter hholds => ?_⟩
      -- what is freed stays freed, and a live view is not
      have hboth : system.Reachable s'' ∧
          (k < s''.ncores ∧ v < (s''.cores k).nviews ∧ (s''.views k v).freed = true) := by
        refine hafter.stable (J := fun _ => True) (Q := fun s => system.Reachable s ∧
            (k < s.ncores ∧ v < (s.cores k).nviews ∧ (s.views k v).freed = true))
          (fun _ _ _ _ _ => trivial) (fun s op s' _ hq hstep => ?_) trivial
          ⟨hreach', by rw [hncores]; exact hk, by rw [hcores]; exact hv, hfreed⟩
        exact ⟨.step hq.1 trivial hstep, step_freed hstep hq.2⟩
      obtain ⟨hreach'', -, -, hfreed''⟩ := hboth
      obtain ⟨-, -, hlive⟩ := (Registered.of_reach hreach'').active_of_holds hholds
      cases hlive.symm.trans hfreed''
  · have hold : s.Holds (.view k v) := .of_lookup hfound
    obtain ⟨-, hv, hfreed⟩ := hs.active_of_holds hold
    obtain ⟨hmade, ⟨b, hpc⟩, hreleased⟩ := hviewed.backed k v hv
    have hsome : (((s.ioOf k).asQueue (s.views k v).queue).step
        (.release (s.views k v).call)).isSome :=
      PrefetchRun.step_release_of hmade hpc (hreleased.trans hfreed)
    obtain ⟨r, hr⟩ := Option.isSome_iff_exists.mp hsome
    simp [Process.step, hidle, begin, dispatch, hfound, releaseView, halive, ioStep, IoRun.step,
      IoRun.readStep, hr, ret]
  · simp [Process.step, hidle, begin, dispatch, hfound, Process.close, hviewed.count, hpos]
  · simp [Process.step, hidle, begin, dispatch, hfound, Process.close, hviewed.count, hzero,
      ApiCall.isClose]
  · exact step_isClose (Reports.of_reach h) hclose hstep

theorem views_accounted_of_view :
    ∃ s, system.replay (fun s op => ¬ s.crowds op = true) smallProcess viewOps = some s ∧
      s.liveViews 0 0 = 1 ∧ Accounted s := by
  have hrun : ((system.replay (fun s op => ¬ s.crowds op = true) smallProcess viewOps).map
      fun s => s.liveViews 0 0) = some 1 := by decide +kernel
  obtain ⟨s, hs, hcount⟩ := Option.map_eq_some_iff.mp hrun
  exact ⟨s, hs, hcount, views_accounted (.of_replay _ (.init smallProcess_init) hs)⟩

/-! ### A full table

`insert` has nothing to give when `2 ^ 32 - 1` handles are live. -/

/-- A core with a dataset for reading, and `n` further ones. -/
def crowd : Nat → Process
  | 0 => (smallProcess.init none).openDataset 0 .read none
  | n + 1 => (crowd n).openDataset 0 .read none

/-- The further datasets leave the first one alone. -/
theorem crowd_same (n : Nat) : (crowd n).io = smallProcess.io ∧
    (crowd n).datasets 0 0 = (crowd 0).datasets 0 0 ∧ (crowd n).views = smallProcess.views ∧
    (crowd n).ncores = 1 ∧ ((crowd n).cores 0).ndatasets = n + 1 ∧
    ((crowd n).cores 0).nqueues = 0 ∧ ((crowd n).cores 0).joined = false ∧
    (crowd n).call = .idle := by
  induction n with
  | zero => exact ⟨rfl, rfl, rfl, rfl, rfl, rfl, rfl, rfl⟩
  | succ n ih =>
    obtain ⟨hio, hdatasets, hviews, hncores, hnumber, hqueues, hjoined, -⟩ := ih
    obtain ⟨hnumber', hqueues'⟩ := (crowd n).openDataset_counts 0 .read 0
    refine ⟨hio, ?_, hviews, hncores, ?_, hqueues'.trans hqueues, ?_, rfl⟩
    -- the new record is never the first one
    · rcases (crowd n).openDataset_cases 0 .read 0 0 with ⟨-, hfirst, -⟩ | ⟨-, hsame⟩
      · rw [hnumber] at hfirst
        cases hfirst
      · exact hsame.trans hdatasets
    · exact hnumber'.trans (by rw [hnumber, if_pos rfl])
    · show (Function.update (crowd n).cores 0 _ 0).joined = false
      rw [Function.update_self]
      exact hjoined

/-- A table that is full of datasets can be reached. -/
theorem crowd_reachable (n : Nat) (hn : n + 2 ≤ maxUint32) : system.Reachable (crowd n) ∧
    (crowd n).handles.table.size = n + 2 ∧ (crowd n).handles.table.freeList = [] ∧
      ((crowd n).handles.table.Shows 0 .core (.core 0) ∧
        (crowd n).handles.table.tokenAt 0 = pack 0 1) ∧
      ((crowd n).handles.table.Shows 1 .dataset (.dataset 0 0) ∧
        (crowd n).handles.table.tokenAt 1 = pack 1 1) ∧ (crowd n).viewSlots 0 0 = ∅ := by
  -- an open of the core, wherever its handle is found
  have hopens : ∀ {s : Process}, system.Reachable s → s.call = .idle →
      s.handles.table.lookup (pack 0 1) .core = (.ok, some (.core 0)) →
      system.Reachable (s.openDataset 0 .read none) := by
    intro s hreach hidle hlookup
    refine .step hreach (l := .openDataset (pack 0 1) .read none) trivial ?_
    show s.step (.openDataset (pack 0 1) .read none) = some _
    simp only [Process.step, hidle, begin, dispatch, hlookup]
  induction n with
  | zero =>
    have hinit : system.Reachable (smallProcess.init none) :=
      .step (.init smallProcess_init) (l := .init none) trivial rfl
    exact ⟨hopens hinit rfl (by decide), rfl, rfl, ⟨⟨by decide, rfl, rfl, rfl⟩, by decide⟩,
      ⟨⟨by decide, rfl, rfl, rfl⟩, by decide⟩, by decide⟩
  | succ n ih =>
    obtain ⟨hreach, hsize, hfree, ⟨hcore, hcoreToken⟩, ⟨hdataset, hdatasetToken⟩, hslots⟩ :=
      ih (by omega)
    have hs := Registered.of_reach hreach
    have hlookup := hs.slab.lookup_tokenAt hcore
    rw [hcoreToken] at hlookup
    obtain ⟨-, -, -, -, -, -, -, hidle⟩ := crowd_same n
    have hinsert : (crowd (n + 1)).handles = (crowd n).handles.insert .dataset
        (.dataset 0 ((crowd n).cores 0).ndatasets) := rfl
    have hroom : ¬ maxUint32 ≤ (crowd n).handles.table.size := by omega
    -- a new slot at the end of the table
    refine ⟨hopens hreach hidle hlookup, ?_, ?_, ⟨?_, ?_⟩, ⟨?_, ?_⟩, ?_⟩
    · show ((crowd n).handles.table.insert _ _).2.size = _
      simp only [HandleTable.insert, hfree, if_neg hroom, HandleTable.bindSlot]
      rw [hsize]
    · show ((crowd n).handles.table.insert _ _).2.freeList = _
      simp only [HandleTable.insert, hfree, if_neg hroom, HandleTable.bindSlot]
    · exact (hs.slab.insert_shows _ _ 0 .core (.core 0)).mpr (.inl hcore)
    · exact (hs.slab.insert_tokenAt hcore _ _).trans hcoreToken
    · exact (hs.slab.insert_shows _ _ 1 .dataset (.dataset 0 0)).mpr (.inl hdataset)
    · exact (hs.slab.insert_tokenAt hdataset _ _).trans hdatasetToken
    · rw [viewSlots_insert hs (by simp) hinsert rfl]
      exact hslots

/-- A step of the queue that `ioStep` makes, whatever the handles are. -/
theorem ioStep_read {r r' : IoRun} {t : HandleTable Nat} {op : ReadOp}
    (hio : s.io k = { r with writes := { r.writes with handles := t } })
    (hr : r.step (.read q op) = some r') :
    ∃ s', s.ioStep k (.read q op) = some s' ∧ s'.io k =
      { r' with writes := { r'.writes with handles := s.handles.table.map Payload.index } } := by
  have hstep : (s.ioOf k).step (.read q op) = some
      { r' with writes := { r'.writes with handles := s.handles.table.map Payload.index } } := by
    rw [ioOf, hio]
    show IoRun.step { r with writes := { r.writes with handles := _ } } (.read q op) = _
    rw [IoRun.step_read_handles, hr]
    rfl
  have hsome : (s.ioStep k (.read q op)).isSome := by
    rw [ioStep, hstep]
    rfl
  obtain ⟨s', hs'⟩ := Option.isSome_iff_exists.mp hsome
  exact ⟨s', hs', Option.some.inj ((ioStep_ran hs').step.symm.trans hstep)⟩

/-- What the steps of a `read` on its queue leave alone. -/
structure Reads (s s' : Process) : Prop where
  quiet : Quiet s s'
  cores : s'.cores = s.cores
  call : s'.call = s.call

/-- A run of a queue, made by the `read` that waits for it and by the workers. -/
theorem run_reads {r r' : IoRun} {t : HandleTable Nat} (ops : List ReadOp)
    (hops : ∀ op ∈ ops, (∃ f fop, op = .fetch f fop) ∨ op = .call c ∨ ∃ lost, op = .submit c lost)
    (hreach : system.Reachable s) (hk : k < s.ncores) (hjoined : (s.cores k).joined = false)
    (hcall : s.call = .reading k d q c)
    (hio : s.io k = { r with writes := { r.writes with handles := t } })
    (hrun : IoRun.system.replay (fun _ _ => True) r (ops.map (.read q)) = some r') :
    ∃ s' t', system.Reachable s' ∧ Reads s s' ∧
      s'.io k = { r' with writes := { r'.writes with handles := t' } } := by
  induction ops generalizing s r t with
  | nil =>
    obtain rfl := Option.some.inj hrun
    exact ⟨s, t, hreach, ⟨.refl s, rfl, rfl⟩, hio⟩
  | cons op ops ih =>
    simp only [List.map_cons, Lts.System.replay, if_true, Option.bind_eq_some_iff] at hrun
    obtain ⟨r₁, hr₁, hrun⟩ := hrun
    have hr₁ : r.step (.read q op) = some r₁ := hr₁
    -- while the read is under way the workers and its own call may move
    have hpermitted : s.permitted k (.read q op) = true := by
      rcases hops op List.mem_cons_self with ⟨f, fop, rfl⟩ | rfl | ⟨lost, rfl⟩
      · simp [permitted, hjoined]
      · simp [permitted, hcall]
      · simp [permitted, hcall]
    obtain ⟨s₁, hs₁, hio₁⟩ := ioStep_read hio hr₁
    have hran := ioStep_ran hs₁
    -- one operation, then the rest from there
    have hreach₁ : system.Reachable s₁ := by
      refine .step hreach (l := .run k (.read q op)) trivial ?_
      show s.step (.run k (.read q op)) = some s₁
      simp only [Process.step, hk, hpermitted]
      exact hs₁
    obtain ⟨s', t', hreach', hreads, hlast⟩ := ih
      (fun op hop => hops op (List.mem_cons_of_mem _ hop)) hreach₁ (by rw [hran.ncores]; exact hk)
      (by rw [hran.cores]; exact hjoined) (hran.call.trans hcall) hio₁ hrun
    exact ⟨s', t', hreach', ⟨(hran.quiet (by simp)).trans hreads.quiet,
      hreads.cores.trans hran.cores, hreads.call.trans hran.call⟩, hlast⟩

/-- A read begins in the full table. -/
theorem crowd_begins (n : Nat) (hn : n + 2 ≤ maxUint32) {r : IoRun}
    (hr : smallCore.step (.read 0 (.begin .getBuffer 0 none)) = some r) :
    ∃ s t, system.Reachable s ∧ Quiet (crowd n) s ∧ (s.cores 0).joined = false ∧
      s.call = .reading 0 0 0 0 ∧
      s.io 0 = { r with writes := { r.writes with handles := t } } := by
  obtain ⟨hio, hdatasets, -, -, -, hqueue, hjoined, hidle⟩ := crowd_same n
  obtain ⟨hreach, -, -, -, ⟨hshows, htoken⟩, -⟩ := crowd_reachable n hn
  have hlookup := (Registered.of_reach hreach).slab.lookup_tokenAt hshows
  rw [htoken] at hlookup
  -- the variable is resolved
  obtain ⟨s₁, hs₁, hjoined₁⟩ : ∃ s₁, (crowd n).resolveVariable 0 0 [118] true =
      some (some 0, s₁) ∧ (s₁.cores 0).joined = false := by
    have hnew : ((crowd n).datasets 0 0).variableStates.lookup [118] = none := by
      rw [hdatasets]
      rfl
    have hfits : (((crowd n).io 0).queues 0).stage.queue.varName = [118] ∧
        (((crowd n).io 0).queues 0).stage.queue.datasetId =
          (((crowd n).io 0).writes.datasets 0).datasetId := by
      rw [hio]
      exact ⟨rfl, rfl⟩
    simp only [resolveVariable, hnew, hqueue, if_true, if_pos hfits]
    refine ⟨_, rfl, ?_⟩
    show (Function.update (crowd n).cores 0 _ 0).joined = false
    rw [Function.update_self]
    exact hjoined
  obtain ⟨hquiet, hio₁, -⟩ := resolveVariable_quiet hs₁
  have hio₁ : s₁.io 0 = smallCore := by
    rw [hio₁, hio]
    rfl
  obtain ⟨s₂, hs₂, hio₂⟩ := ioStep_read (s := s₁) (t := smallCore.writes.handles) hio₁ hr
  have hran := ioStep_ran hs₂
  have hfetch : s₁.fetchBuffer 0 0 0 0 none = some { s₂ with call := .reading 0 0 0 0 } := by
    simp only [fetchBuffer, hio₁, hs₂]
    rfl
  refine ⟨{ s₂ with call := .reading 0 0 0 0 }, _, ?_,
    (hquiet.trans (hran.quiet (by simp))).at _ _ _, ?_, rfl, hio₂⟩
  · refine .step hreach (l := .read (pack 1 1) [118] 0 none true) trivial ?_
    show (crowd n).step _ = _
    simp only [Process.step, hidle, begin, dispatch, hlookup, Process.read, hs₁, hfetch]
    rw [hdatasets]
    rfl
  · show (s₂.cores 0).joined = false
    rw [hran.cores]
    exact hjoined₁

/-- The steps of the read: its fetch is run, and delivers. -/
def deliverOps : List ReadOp :=
  [.call 0, .call 0, .submit 0 false] ++ PrefetchRun.fetchOps 0 [1, 2] ++ [.call 0]

/-- With one core, whose datasets fill the table, a view that finds no slot is counted all the same,
and there is nothing to release. -/
theorem view_uncounted :
    ∃ s, system.Reachable s ∧ s.ncores = 1 ∧ (s.datasets 0 0).outstandingViews = 1 ∧
      s.liveViews 0 0 = 0 := by
  obtain ⟨r, hr⟩ : ∃ r, smallCore.step (.read 0 (.begin .getBuffer 0 none)) = some r := ⟨_, rfl⟩
  -- the read inside the core, evaluated
  have hrun : ((smallCore.step (.read 0 (.begin .getBuffer 0 none))).bind fun r =>
      (IoRun.system.replay (fun _ _ => True) r (deliverOps.map (.read 0))).map fun r' =>
        ((r'.queues 0).calls 0).pc) = some (.returned .ok (some 0)) := by decide +kernel
  rw [hr] at hrun
  obtain ⟨r', hr', hpc⟩ := Option.map_eq_some_iff.mp hrun
  -- the table is full: one slot for the core, and the rest for datasets
  obtain ⟨n, hn⟩ : ∃ n, n + 2 = maxUint32 := ⟨maxUint32 - 2, by decide⟩
  obtain ⟨-, hsize, hfree, -, -, hslots⟩ := crowd_reachable n hn.le
  obtain ⟨-, hdatasets, hviews, hncores, -⟩ := crowd_same n
  obtain ⟨s₁, t, hreach₁, hquiet₁, hjoined, hcall₁, hio₁⟩ := crowd_begins n hn.le hr
  -- the same steps in the process
  obtain ⟨s₂, t', hreach₂, hreads, hio₂⟩ :=
    run_reads deliverOps (by simp [deliverOps, PrefetchRun.fetchOps]) hreach₁
      (by rw [hquiet₁.ncores, hncores]; exact Nat.one_pos) hjoined hcall₁ hio₁ hr'
  have hquiet₂ : Quiet (crowd n) s₂ := hquiet₁.trans hreads.quiet
  have hcall₂ : s₂.call = .reading 0 0 0 0 := hreads.call.trans hcall₁
  have hpc₂ : (((s₂.io 0).queues 0).calls 0).pc = .returned .ok (some 0) := by
    rw [hio₂]
    exact hpc
  -- so the mint finds no slot
  have hroom : ¬ s₂.handles.table.Room := by
    rw [hquiet₂.handles, HandleTable.Room, hsize, hfree]
    simp [hn]
  obtain ⟨s₃, hs₃⟩ : ∃ s₃, s₂.mint 0 0 0 0 = some s₃ := by
    simp only [Process.mint, hpc₂, ioStep, IoRun.step, IoRun.readStep, PrefetchRun.step,
      Option.map_some]
    exact ⟨_, rfl⟩
  refine ⟨s₃, .step hreach₂ (l := .mint) trivial ?_, ?_, ?_, ?_⟩
  · show s₂.step .mint = some s₃
    simp only [Process.step, hcall₂]
    exact hs₃
  all_goals
    simp only [Process.mint, hpc₂] at hs₃
    obtain ⟨s', hs', rfl⟩ := Option.map_eq_some_iff.mp hs₃
    have hran := ioStep_ran hs'
  · exact hran.ncores.trans (hquiet₂.ncores.trans hncores)
  -- the counter is raised
  · have hzero : (s₂.datasets 0 0).outstandingViews = 0 := by
      rw [(face_eq_dataset (hquiet₂.datasets 0 0)).2.2.1, hdatasets]
      rfl
    show (s'.datasets 0 0).outstandingViews = 1
    rw [hran.undriven rfl]
    simp [setCore, setView, setDataset, hzero, u64]
  -- and no slot of the table shows the view
  · refine Finset.card_eq_zero.mpr (Finset.eq_empty_of_forall_notMem fun i hi => ?_)
    obtain ⟨v, hshows, -⟩ := mem_viewSlots.mp hi
    have htable : s'.handles.table = (crowd n).handles.table := by
      rw [hran.handles]
      show (s₂.handles.table.insert _ _).2 = _
      rw [HandleTable.insert_full hroom, hquiet₂.handles]
    have hshows : s'.handles.table.Shows i .view (.view 0 v) := hshows
    rw [htable] at hshows
    have hmem : i ∈ (crowd n).viewSlots 0 0 := mem_viewSlots.mpr ⟨v, hshows, by rw [hviews]; rfl⟩
    rw [hslots] at hmem
    exact absurd hmem (Finset.notMem_empty i)

end Process

end Amio
