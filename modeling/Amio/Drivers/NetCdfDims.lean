import Amio.Drivers.NetCdfRoundTrip
import Mathlib.Data.List.Find

/-!
# The dimensions of a new variable

`NetCDF_Driver::write` chooses the dimensions of a new variable one axis at a time, and every axis
searches the whole file: for a dimension of its length, and of several for the one whose name suits
the axis best; failing that, for a dimension of its default name. Nothing is remembered from one
axis to the next, and the length of a dimension found by its name is not compared. So two axes of
one extent end up with one dimension unless the file has two that suit them differently, and a
dimension that is left under a default name is taken whatever its length. `dimensions_iff` says when
the choice is well formed, in terms of the file as it was before.
-/

namespace Amio.NetCdf

namespace NcFile

variable {lib : Library} {f f' cur cur' : NcFile} {name : List UInt8} {rank d e id id' : Nat}
  {added : List NcDim}

/-! ### The search by length -/

/-- Of the dimensions of a given length the first whose name suits an axis no worse than the names
of the others. -/
def bestMatch (f : NcFile) (rank d len : Nat) : Option Nat :=
  (f.matchingDimids len).find? fun id => (f.matchingDimids len).all fun id' =>
    decide (axisScore rank d (f.inqDimname id') ≤ axisScore rank d (f.inqDimname id))

theorem nameScore_nonneg (names needles : List (List UInt8)) (name : List UInt8) :
    0 ≤ nameScore names needles name := by
  unfold nameScore
  repeat' split
  all_goals decide

theorem axisScore_nonneg (rank d : Nat) (name : List UInt8) : 0 ≤ axisScore rank d name := by
  unfold axisScore
  repeat' split
  all_goals first | exact nameScore_nonneg _ _ _ | exact le_rfl

/-- The fold over the candidates ends at the first of those with the greatest score, with the score
beside it. -/
theorem foldl_best {score : List UInt8 → Int} (hscore : ∀ name, 0 ≤ score name) (ids : List Nat) :
    (ids = [] ∧ ids.foldl (fun best id => if best.1 < score (f.inqDimname id) then
      (score (f.inqDimname id), some id) else best) ((-1 : Int), (none : Option Nat)) =
        (-1, none)) ∨
    ∃ b as bs, ids = as ++ b :: bs ∧
      (∀ a ∈ as, score (f.inqDimname a) < score (f.inqDimname b)) ∧
      (∀ a ∈ bs, score (f.inqDimname a) ≤ score (f.inqDimname b)) ∧
      ids.foldl (fun best id => if best.1 < score (f.inqDimname id) then
        (score (f.inqDimname id), some id) else best) ((-1 : Int), (none : Option Nat)) =
          (score (f.inqDimname b), some b) := by
  induction ids using List.reverseRecOn with
  | nil => exact .inl ⟨rfl, rfl⟩
  | append_singleton ids i ih =>
    rw [List.foldl_append, List.foldl_cons, List.foldl_nil]
    refine .inr ?_
    rcases ih with ⟨rfl, hfold⟩ | ⟨b, as, bs, rfl, has, hbs, hfold⟩
    · have hi := hscore (f.inqDimname i)
      rw [hfold, if_pos (by dsimp only; omega)]
      exact ⟨i, [], [], rfl, nofun, nofun, rfl⟩
    · rw [hfold]
      dsimp only
      split
      -- a better one, and so better than all before it
      · next hlt =>
        refine ⟨i, as ++ b :: bs, [], rfl, fun a ha => ?_, nofun, rfl⟩
        rcases List.mem_append.mp ha with ha | ha
        · exact (has a ha).trans hlt
        · rcases List.mem_cons.mp ha with rfl | ha
          · exact hlt
          · exact (hbs a ha).trans_lt hlt
      · next hge =>
        refine ⟨b, as, bs ++ [i], by simp, has, fun a ha => ?_, rfl⟩
        rcases List.mem_append.mp ha with ha | ha
        · exact hbs a ha
        · rw [List.mem_singleton.mp ha]
          omega

/-- The loop finds the first dimension with the best score. -/
theorem bestDim_eq_find {score : List UInt8 → Int} (hscore : ∀ name, 0 ≤ score name)
    (ids : List Nat) : f.bestDim score ids = ids.find? fun id => ids.all fun id' =>
      decide (score (f.inqDimname id') ≤ score (f.inqDimname id)) := by
  unfold bestDim
  rcases foldl_best (f := f) hscore ids with ⟨rfl, hfold⟩ | ⟨b, as, bs, rfl, has, hbs, hfold⟩
  · rfl
  · rw [hfold, eq_comm, List.find?_eq_some_iff_append]
    refine ⟨?_, as, bs, rfl, fun a ha => ?_⟩
    · rw [List.all_eq_true]
      intro a ha
      rw [decide_eq_true_eq]
      rcases List.mem_append.mp ha with ha | ha
      · exact (has a ha).le
      · rcases List.mem_cons.mp ha with rfl | ha
        · exact le_rfl
        · exact hbs a ha
    -- those before `b` suit the axis worse than `b` does
    · rw [Bool.not_eq_true', List.all_eq_false]
      refine ⟨b, List.mem_append_right _ List.mem_cons_self, ?_⟩
      rw [decide_eq_true_eq, not_le]
      exact has a ha

/-- **The search finds the best match.** -/
theorem sharedDim_eq_bestMatch (f : NcFile) (rank d len : Nat) :
    f.sharedDim rank d len = f.bestMatch rank d len := by
  unfold sharedDim bestMatch
  rcases f.matchingDimids len with _ | ⟨i, _ | ⟨j, ids⟩⟩
  · rfl
  · simp
  · exact bestDim_eq_find (axisScore_nonneg rank d) _

@[simp] theorem mem_matchingDimids :
    id ∈ f.matchingDimids e ↔ id < f.dims.length ∧ f.inqDimlen id = e := by
  simp [matchingDimids]

/-- The dimension that is found has the length. -/
theorem mem_of_bestMatch (h : f.bestMatch rank d e = some id) : id ∈ f.matchingDimids e :=
  List.mem_of_find?_eq_some h

/-- None is found if there is none of the length. -/
theorem bestMatch_eq_none : f.bestMatch rank d e = none ↔ f.matchingDimids e = [] := by
  rw [← sharedDim_eq_bestMatch, sharedDim]
  rcases f.matchingDimids e with _ | ⟨i, _ | ⟨j, ids⟩⟩
  · simp
  · simp
  · rcases foldl_best (f := f) (axisScore_nonneg rank d) (i :: j :: ids) with
      ⟨hnil, -⟩ | ⟨b, -, -, -, -, -, hfold⟩
    · cases hnil
    · simp only [bestDim, hfold]
      exact ⟨nofun, nofun⟩

/-! ### Files with more dimensions -/

/-- The older dimensions keep their names. -/
theorem Extends.inqDimname (h : f.Extends f' added) (hid : id < f.dims.length) :
    f'.inqDimname id = f.inqDimname id := by
  rw [NcFile.inqDimname, h.1, List.getElem?_append_left hid]
  rfl

/-- They stay limited or unlimited. -/
theorem Extends.inqUnlim (h : f.Extends f' added) (hid : id < f.dims.length) :
    f'.inqUnlim id = f.inqUnlim id := by
  rw [NcFile.inqUnlim, h.1, List.getElem?_append_left hid]
  rfl

/-- A dimension that is not in `f` is one of those that were added. -/
theorem Extends.exists_added (h : f.Extends f' added) (hge : f.dims.length ≤ id)
    (hid : id < f'.dims.length) : ∃ D ∈ added, f'.dims[id]? = some D := by
  rw [h.1, List.length_append] at hid
  refine ⟨added[id - f.dims.length], List.getElem_mem _, ?_⟩
  rw [h.1, List.getElem?_append_right hge, List.getElem?_eq_getElem (by omega)]

/-- Dimensions of other lengths do not match. -/
theorem Extends.matchingDimids (h : f.Extends f' added) (hno : ∀ D ∈ added, D.len ≠ e) :
    f'.matchingDimids e = f.matchingDimids e := by
  unfold NcFile.matchingDimids
  rw [h.1, List.length_append, List.range_add, List.filter_append]
  have hold : (List.range f.dims.length).filter (fun id => f'.inqDimlen id = e) =
      (List.range f.dims.length).filter fun id => f.inqDimlen id = e :=
    List.filter_congr fun id hid => by rw [h.inqDimlen (List.mem_range.mp hid)]
  have hnew : ((List.range added.length).map (f.dims.length + ·)).filter
      (fun id => f'.inqDimlen id = e) = [] := by
    rw [List.filter_eq_nil_iff]
    intro id hid
    obtain ⟨j, hj, rfl⟩ := List.mem_map.mp hid
    have hj' := List.mem_range.mp hj
    obtain ⟨D, hD, hget⟩ := h.exists_added (Nat.le_add_right _ j)
      (by rw [h.1, List.length_append]; omega)
    simpa [NcFile.inqDimlen, hget] using hno D hD
  rw [hold, hnew, List.append_nil]

/-- Dimensions of other lengths do not enter the search. -/
theorem Extends.bestMatch (h : f.Extends f' added) (hno : ∀ D ∈ added, D.len ≠ e) :
    f'.bestMatch rank d e = f.bestMatch rank d e := by
  have hname : ∀ id ∈ f.matchingDimids e, f'.inqDimname id = f.inqDimname id :=
    fun id hid => h.inqDimname (mem_matchingDimids.mp hid).1
  unfold NcFile.bestMatch
  rw [h.matchingDimids hno]
  refine List.find?_congr fun id hid => ?_
  rw [Bool.eq_iff_iff, List.all_eq_true, List.all_eq_true, hname id hid]
  exact forall₂_congr fun id' hid' => by rw [hname id' hid']

/-- The dimension that is found by a name has it. -/
theorem inqDimid_spec (h : f.inqDimid name = some id) :
    id < f.dims.length ∧ f.inqDimname id = name := by
  obtain ⟨hlt, hname, -⟩ := List.findIdx?_eq_some_iff_getElem.mp h
  refine ⟨hlt, ?_⟩
  rw [inqDimname, List.getElem?_eq_getElem hlt]
  exact of_decide_eq_true hname

/-- A name that is found is found again. -/
theorem Extends.inqDimid_some (h : f.Extends f' added) (hid : f.inqDimid name = some id) :
    f'.inqDimid name = some id := by
  unfold NcFile.inqDimid at hid ⊢
  rw [h.1, List.findIdx?_append, hid]
  rfl

/-- A name that no new dimension has is not found. -/
theorem Extends.inqDimid_none (h : f.Extends f' added) (hid : f.inqDimid name = none)
    (hnew : ∀ D ∈ added, D.name ≠ name) : f'.inqDimid name = none := by
  refine inqDimid_eq_none fun D hD => ?_
  rw [h.1] at hD
  rcases List.mem_append.mp hD with hold | hadded
  · simpa using List.findIdx?_eq_none_iff.mp hid D hold
  · exact hnew D hadded

/-! ### A variable that shares -/

/-- The loop has reached axis `d` of a variable that is no coordinate: the dimensions it defined are
of lengths that the file did not have, one for each, and have default names that were free. -/
structure Sharing (f : NcFile) (name : List UInt8) (es : List Nat) (cur : NcFile) (d : Nat)
    (added : List NcDim) : Prop where
  ext : f.Extends cur added
  own : ∀ D ∈ added, D.unlimited = decide (D.len = 0) ∧ f.matchingDimids D.len = [] ∧
    ∃ k, k < d ∧ D.name = dimName name es.length k ∧ es[k]? = some D.len ∧
      f.inqDimid (dimName name es.length k) = none
  alone : ∀ e id id', f.matchingDimids e = [] → id ∈ cur.matchingDimids e →
    id' ∈ cur.matchingDimids e → id = id'
  complete : ∀ k e, k < d → es[k]? = some e → f.inqDimid (dimName name es.length k) = none →
    cur.matchingDimids e ≠ []

/-- What the loop comes out with for axis `d` of extent `e`, in terms of the file before: the best
match; else a dimension of its length, if the default name is free or was so for an earlier axis of
this extent; else what has the default name. -/
structure Chosen (f : NcFile) (name : List UInt8) (es : List Nat) (f' : NcFile) (d e id : Nat) :
    Prop where
  lt : id < f'.dims.length
  shared : f.matchingDimids e ≠ [] → f.bestMatch es.length d e = some id
  fresh : f.matchingDimids e = [] → ∀ k, k ≤ d → es[k]? = some e →
    f.inqDimid (dimName name es.length k) = none → f'.inqDimlen id = e
  taken : f.matchingDimids e = [] →
    (∀ k, k < d → es[k]? = some e → f.inqDimid (dimName name es.length k) ≠ none) →
    ∀ i, f.inqDimid (dimName name es.length d) = some i → id = i

/-- A choice stays the one that was made. -/
theorem Chosen.extends {es : List Nat} (h : Chosen f name es cur d e id)
    (hext : cur.Extends cur' added) : Chosen f name es cur' d e id :=
  ⟨hext.lt h.lt, h.shared, fun he k hk hek hname =>
    (hext.inqDimlen h.lt).trans (h.fresh he k hk hek hname), h.taken⟩

theorem Sharing.refl (f : NcFile) (name : List UInt8) (es : List Nat) :
    Sharing f name es f 0 [] := by
  refine ⟨.refl f, nofun, fun e id id' he hid _ => ?_, nofun⟩
  rw [he] at hid
  cases hid

/-- One of the dimensions that were defined in this loop. -/
theorem Sharing.made {es : List Nat} (hs : Sharing f name es cur d added)
    (he : f.matchingDimids e = []) (hid : id ∈ cur.matchingDimids e) :
    ∃ k, k < d ∧ es[k]? = some e ∧ f.inqDimid (dimName name es.length k) = none := by
  obtain ⟨hlt, hlen⟩ := mem_matchingDimids.mp hid
  have hge : f.dims.length ≤ id := by
    by_contra hold
    have hmem : id ∈ f.matchingDimids e :=
      mem_matchingDimids.mpr ⟨by omega, by rw [← hs.ext.inqDimlen (by omega), hlen]⟩
    rw [he] at hmem
    cases hmem
  obtain ⟨D, hD, hget⟩ := hs.ext.exists_added hge hlt
  obtain ⟨-, -, k, hk, -, hes, hfree⟩ := hs.own D hD
  refine ⟨k, hk, ?_, hfree⟩
  rw [hes, ← hlen, NcFile.inqDimlen, hget]
  rfl

/-- Axis `d` is done without a new dimension. -/
theorem Sharing.next {es : List Nat} (hs : Sharing f name es cur d added) (he : es[d]? = some e)
    (hdone : f.inqDimid (dimName name es.length d) = none → cur.matchingDimids e ≠ []) :
    Sharing f name es cur (d + 1) added := by
  refine ⟨hs.ext, fun D hD => ?_, hs.alone, fun k e' hk hek hfree => ?_⟩
  · obtain ⟨hunlim, hno, k, hk, hname⟩ := hs.own D hD
    exact ⟨hunlim, hno, k, by omega, hname⟩
  · rcases Nat.lt_succ_iff_lt_or_eq.mp hk with hk | rfl
    · exact hs.complete k e' hk hek hfree
    · obtain rfl := Option.some.inj (he.symm.trans hek)
      exact hdone hfree

/-- A dimension is defined for the extent `e` of axis `d`. -/
theorem Sharing.define {es : List Nat} (hs : Sharing f name es cur d added)
    (he : es[d]? = some e) (hno : cur.matchingDimids e = [])
    (hfree : f.inqDimid (dimName name es.length d) = none)
    (hext : cur.Extends cur' [⟨dimName name es.length d, decide (e = 0), e⟩]) :
    Sharing f name es cur' (d + 1) (added ++ [⟨dimName name es.length d, decide (e = 0), e⟩]) := by
  have hmem : ∀ id e', id ∈ cur'.matchingDimids e' →
      id ∈ cur.matchingDimids e' ∨ id = cur.dims.length ∧ e' = e := by
    intro id e' hid
    obtain ⟨hlt, hlen⟩ := mem_matchingDimids.mp hid
    rcases Nat.lt_or_ge id cur.dims.length with hold | hge
    · exact .inl (mem_matchingDimids.mpr ⟨hold, by rw [← hext.inqDimlen hold, hlen]⟩)
    · have hlast : id = cur.dims.length := by
        rw [hext.1, List.length_append, List.length_singleton] at hlt
        omega
      subst hlast
      rw [NcFile.inqDimlen, hext.last.2] at hlen
      exact .inr ⟨rfl, hlen.symm⟩
  have hkeep : ∀ id e', id ∈ cur.matchingDimids e' → id ∈ cur'.matchingDimids e' := by
    intro id e' hid
    obtain ⟨hlt, hlen⟩ := mem_matchingDimids.mp hid
    exact mem_matchingDimids.mpr ⟨hext.lt hlt, (hext.inqDimlen hlt).trans hlen⟩
  refine ⟨hs.ext.trans hext, fun D hD => ?_, fun e' id id' he' hid hid' => ?_,
    fun k e' hk hek hname => ?_⟩
  · rcases List.mem_append.mp hD with hold | hnew
    · obtain ⟨hunlim, hno', k, hk, hname⟩ := hs.own D hold
      exact ⟨hunlim, hno', k, by omega, hname⟩
    · obtain rfl := List.mem_singleton.mp hnew
      refine ⟨rfl, ?_, d, Nat.lt_succ_self d, rfl, he, hfree⟩
      -- nothing has this length now, so nothing had it before
      rw [List.eq_nil_iff_forall_not_mem] at hno ⊢
      intro id hid
      obtain ⟨hlt, hlen⟩ := mem_matchingDimids.mp hid
      exact hno id (mem_matchingDimids.mpr ⟨hs.ext.lt hlt, (hs.ext.inqDimlen hlt).trans hlen⟩)
  · rcases hmem id e' hid with hold | ⟨hlast, hlen⟩
    · rcases hmem id' e' hid' with hold' | ⟨-, hlen'⟩
      · exact hs.alone e' id id' he' hold hold'
      · rw [hlen', hno] at hold
        cases hold
    · rcases hmem id' e' hid' with hold' | ⟨hlast', -⟩
      · rw [hlen, hno] at hold'
        cases hold'
      · rw [hlast, hlast']
  · rcases Nat.lt_succ_iff_lt_or_eq.mp hk with hk | rfl
    · obtain ⟨id, hid⟩ := List.exists_mem_of_ne_nil _ (hs.complete k e' hk hek hname)
      exact List.ne_nil_of_mem (hkeep id e' hid)
    · obtain rfl := Option.some.inj (he.symm.trans hek)
      have hlast : cur'.inqDimlen cur.dims.length = e := by
        rw [NcFile.inqDimlen, hext.last.2]
        rfl
      exact List.ne_nil_of_mem (mem_matchingDimids.mpr ⟨hext.last.1, hlast⟩)

/-- **One axis** of a variable that is no coordinate. -/
theorem Sharing.step {es : List Nat} (hcoord : isCoordinate name = false)
    (hrank : es.length ≤ maxRank) (hs : Sharing f name es cur d added) (he : es[d]? = some e)
    (h : defineDim lib cur name es.length d e = some (cur', id)) :
    ∃ more, cur.Extends cur' more ∧ Sharing f name es cur' (d + 1) (added ++ more) ∧
      Chosen f name es cur' d e id := by
  have hd : d < es.length := (List.getElem?_eq_some_iff.mp he).1
  simp only [defineDim, hcoord, Bool.false_eq_true, if_false, sharedDim_eq_bestMatch] at h
  split at h
  -- a dimension of the right length was found
  · next i hbest =>
    obtain ⟨rfl, rfl⟩ := Prod.mk.inj (Option.some.inj h)
    have hmem := mem_of_bestMatch hbest
    obtain ⟨hlt, hlen⟩ := mem_matchingDimids.mp hmem
    have hnext := hs.next he fun _ => List.ne_nil_of_mem hmem
    refine ⟨[], .refl _, by rwa [List.append_nil], hlt, fun hsome => ?_, fun _ _ _ _ _ => hlen,
      fun hno hfirst => ?_⟩
    · rw [← hs.ext.bestMatch, hbest]
      rintro D hD rfl
      exact hsome (hs.own D hD).2.1
    · obtain ⟨k, hk, hek, hfree⟩ := hs.made hno hmem
      exact absurd hfree (hfirst k hk hek)
  · next hnone =>
    have hno : cur.matchingDimids e = [] := bestMatch_eq_none.mp hnone
    have hnof : f.matchingDimids e = [] := by
      by_contra hsome
      have : f.bestMatch es.length d e = none := by
        rw [← hs.ext.bestMatch, hnone]
        rintro D hD rfl
        exact hsome (hs.own D hD).2.1
      exact hsome (bestMatch_eq_none.mp this)
    -- the dimensions of this loop have other default names
    have hnames : ∀ D ∈ added, D.name ≠ dimName name es.length d := by
      intro D hD
      obtain ⟨-, -, k, hk, hname, -⟩ := hs.own D hD
      rw [hname]
      exact dimName_ne hrank (by omega) hd (by omega)
    cases hfound : f.inqDimid (dimName name es.length d) with
    | some i =>
      rw [hs.ext.inqDimid_some hfound] at h
      obtain ⟨rfl, rfl⟩ := Prod.mk.inj (Option.some.inj h)
      have hnext := hs.next he fun hfree => absurd (hfound.symm.trans hfree) nofun
      refine ⟨[], .refl _, by rwa [List.append_nil], hs.ext.lt (inqDimid_spec hfound).1,
        fun hsome => absurd hnof hsome, fun _ k hk hek hfree => ?_, fun _ _ j hj => ?_⟩
      -- no earlier axis of this extent had its default name to itself
      · rcases hk.lt_or_eq with hk | rfl
        · exact absurd hno (hs.complete k e hk hek hfree)
        · exact absurd (hfound.symm.trans hfree) nofun
      · exact Option.some.inj (hfound.symm.trans hj)
    | none =>
      rw [hs.ext.inqDimid_none hfound hnames] at h
      have htime : dimName name es.length d ≠ text "time" := by
        intro heq
        obtain ⟨rfl, -⟩ := dimName_time (hd.trans_le hrank) heq
        exact absurd hcoord (by decide)
      simp only [if_neg htime] at h
      obtain ⟨rfl, hext⟩ := defDim_spec h
      refine ⟨_, hext, hs.define he hno hfound hext, hext.last.1, fun hsome => absurd hnof hsome,
        fun _ _ _ _ _ => ?_, fun _ _ i hi => absurd (hfound.symm.trans hi) nofun⟩
      rw [NcFile.inqDimlen, hext.last.2]
      rfl

/-- **The loop** for a variable that is no coordinate. -/
theorem defineDims_sharing {es ids : List Nat} (hcoord : isCoordinate name = false)
    (hrank : es.length ≤ maxRank)
    (h : defineDims lib name es.length f 0 es = some (f', ids)) :
    (∃ added, Sharing f name es f' es.length added) ∧ ids.length = es.length ∧
      ∀ d e id, es[d]? = some e → ids[d]? = some id → Chosen f name es f' d e id := by
  obtain ⟨-, hI, hcount, hO⟩ := defineDims_run
    (I := fun cur d => ∃ added, Sharing f name es cur d added) (O := Chosen f name es)
    (fun _ _ _ _ _ _ hext hO => hO.extends hext)
    (fun cur cur' d e id hI he hdim => by
      obtain ⟨added, hs⟩ := hI
      obtain ⟨more, hext, hnext, hchosen⟩ := hs.step hcoord hrank he hdim
      exact ⟨⟨more, hext⟩, ⟨_, hnext⟩, hchosen⟩)
    (List.drop_zero) ⟨[], .refl f name es⟩ h
  rw [Nat.zero_add] at hI
  exact ⟨hI, hcount, fun d e id he hid => by
    have := hO d e id he hid
    rwa [Nat.zero_add] at this⟩

/-! ### A coordinate -/

/-- The loop has reached axis `d` of a coordinate: the dimensions it defined have default names of
earlier axes. -/
structure Naming (f : NcFile) (name : List UInt8) (rank : Nat) (cur : NcFile) (d : Nat)
    (added : List NcDim) : Prop where
  ext : f.Extends cur added
  own : ∀ D ∈ added, ∃ k, k < d ∧ D.name = dimName name rank k

/-- What the loop comes out with for axis `d` of extent `e` of a coordinate. -/
structure Named (f : NcFile) (name : List UInt8) (rank : Nat) (f' : NcFile) (d e id : Nat) :
    Prop where
  lt : id < f'.dims.length
  named : f'.inqDimname id = dimName name rank d
  found : ∀ i, f.inqDimid (dimName name rank d) = some i → id = i
  defined : f.inqDimid (dimName name rank d) = none → f.dims.length ≤ id ∧
    f'.inqUnlim id = decide (dimName name rank d = text "time" ∨ e = 0) ∧
    (dimName name rank d ≠ text "time" → f'.inqDimlen id = e)

/-- A name stays the one that was chosen. -/
theorem Named.extends (h : Named f name rank cur d e id) (hext : cur.Extends cur' added) :
    Named f name rank cur' d e id :=
  ⟨hext.lt h.lt, (hext.inqDimname h.lt).trans h.named, h.found, fun hnone => by
    obtain ⟨hge, hunlim, hlen⟩ := h.defined hnone
    exact ⟨hge, (hext.inqUnlim h.lt).trans hunlim,
      fun htime => (hext.inqDimlen h.lt).trans (hlen htime)⟩⟩

/-- **One axis** of a coordinate. -/
theorem Naming.step (hcoord : isCoordinate name = true) (hrank : rank ≤ maxRank) (hd : d < rank)
    (hs : Naming f name rank cur d added)
    (h : defineDim lib cur name rank d e = some (cur', id)) :
    ∃ more, cur.Extends cur' more ∧ Naming f name rank cur' (d + 1) (added ++ more) ∧
      Named f name rank cur' d e id := by
  have hnext : ∀ D ∈ added, ∃ k, k < d + 1 ∧ D.name = dimName name rank k := by
    intro D hD
    obtain ⟨k, hk, hname⟩ := hs.own D hD
    exact ⟨k, by omega, hname⟩
  have hnames : ∀ D ∈ added, D.name ≠ dimName name rank d := by
    intro D hD
    obtain ⟨k, hk, hname⟩ := hs.own D hD
    rw [hname]
    exact dimName_ne hrank (by omega) hd (by omega)
  simp only [defineDim, hcoord, if_true] at h
  cases hfound : f.inqDimid (dimName name rank d) with
  | some i =>
    -- the dimension of the default name was there, whatever its length
    rw [hs.ext.inqDimid_some hfound] at h
    obtain ⟨rfl, rfl⟩ := Prod.mk.inj (Option.some.inj h)
    obtain ⟨hlt, hname⟩ := inqDimid_spec hfound
    refine ⟨[], .refl _, ⟨by rw [List.append_nil]; exact hs.ext,
      by rw [List.append_nil]; exact hnext⟩, hs.ext.lt hlt, (hs.ext.inqDimname hlt).trans hname,
      fun j hj => ?_, fun hnone => absurd (hfound.symm.trans hnone) nofun⟩
    exact Option.some.inj (hfound.symm.trans hj)
  | none =>
    rw [hs.ext.inqDimid_none hfound hnames] at h
    -- it was not, and is defined
    obtain ⟨rfl, hext⟩ := defDim_spec h
    refine ⟨_, hext, ⟨hs.ext.trans hext, fun D hD => ?_⟩, hext.last.1, ?_,
      fun i hi => absurd (hfound.symm.trans hi) nofun, fun _ => ⟨?_, ?_, fun htime => ?_⟩⟩
    · rcases List.mem_append.mp hD with hold | hnew
      · exact hnext D hold
      · exact ⟨d, Nat.lt_succ_self d, by rw [List.mem_singleton.mp hnew]⟩
    · rw [NcFile.inqDimname, hext.last.2]
      rfl
    · rw [hs.ext.1, List.length_append]
      exact Nat.le_add_right _ _
    · rw [NcFile.inqUnlim, hext.last.2]
      by_cases htime : dimName name rank d = text "time"
      · simp [htime]
      · simp [htime]
    · rw [NcFile.inqDimlen, hext.last.2, if_neg htime]
      rfl

/-- **The loop** for a coordinate. -/
theorem defineDims_naming {es ids : List Nat} (hcoord : isCoordinate name = true)
    (hrank : es.length ≤ maxRank)
    (h : defineDims lib name es.length f 0 es = some (f', ids)) :
    (∃ added, Naming f name es.length f' es.length added) ∧ ids.length = es.length ∧
      ∀ d e id, es[d]? = some e → ids[d]? = some id → Named f name es.length f' d e id := by
  obtain ⟨-, hI, hcount, hO⟩ := defineDims_run
    (I := fun cur d => ∃ added, Naming f name es.length cur d added)
    (O := Named f name es.length)
    (fun _ _ _ _ _ _ hext hO => hO.extends hext)
    (fun cur cur' d e id hI he hdim => by
      obtain ⟨added, hs⟩ := hI
      obtain ⟨more, hext, hnext, hnamed⟩ := hs.step hcoord hrank
        (List.getElem?_eq_some_iff.mp he).1 hdim
      exact ⟨⟨more, hext⟩, ⟨_, hnext⟩, hnamed⟩)
    (List.drop_zero) ⟨[], .refl f, nofun⟩ h
  rw [Nat.zero_add] at hI
  exact ⟨hI, hcount, fun d e id he hid => by
    have := hO d e id he hid
    rwa [Nat.zero_add] at this⟩

/-! ### Well-formed dimensions -/

/-- The dimensions of a variable of extents `es` that was defined in `f`: each is used once and has
the length of its axis, unless it is the record dimension and was defined with the variable; only
the first may be unlimited. -/
structure WellAssigned (f f' : NcFile) (es ids : List Nat) : Prop where
  distinct : ids.Nodup
  sized : ∀ d e id : Nat, es[d]? = some e → ids[d]? = some id → f'.inqDimlen id = e ∨
    f.dims.length ≤ id ∧ f'.inqUnlim id = true ∧ f'.inqDimname id = text "time"
  leading : ∀ d id : Nat, 0 < d → ids[d]? = some id → f'.inqUnlim id = false

/-- What a variable that is no coordinate needs of the file: where no dimension has the length of an
axis, no dimension has its default name either; two axes of one extent are suited best by different
dimensions, so there have to be two; and no later axis is suited best by an unlimited one. -/
structure Sharable (f : NcFile) (name : List UInt8) (es : List Nat) : Prop where
  unnamed : ∀ d e, es[d]? = some e → f.matchingDimids e = [] →
    f.inqDimid (dimName name es.length d) = none
  apart : ∀ d d' e, es[d]? = some e → es[d']? = some e → d ≠ d' →
    f.bestMatch es.length d e ≠ f.bestMatch es.length d' e
  leading : ∀ d e id, 0 < d → es[d]? = some e → f.bestMatch es.length d e = some id →
    f.inqUnlim id = false

/-- What a coordinate needs of the file: a dimension that has the default name of an axis has its
length too, and is not unlimited but for the first axis. -/
def Coordinated (f : NcFile) (name : List UInt8) (es : List Nat) : Prop :=
  ∀ d e id, es[d]? = some e → f.inqDimid (dimName name es.length d) = some id →
    f.inqDimlen id = e ∧ (0 < d → f.inqUnlim id = false)

/-- What a new variable needs of the file. -/
def Assignable (f : NcFile) (name : List UInt8) (es : List Nat) : Prop :=
  if isCoordinate name then f.Coordinated name es else f.Sharable name es

/-- An axis has a dimension. -/
theorem exists_getElem? {es ids : List Nat} (hcount : ids.length = es.length)
    (he : es[d]? = some e) : ∃ id, ids[d]? = some id :=
  ⟨_, List.getElem?_eq_getElem (hcount ▸ (List.getElem?_eq_some_iff.mp he).1)⟩

/-- Every axis has an extent. -/
theorem exists_extent {es ids : List Nat} (hcount : ids.length = es.length)
    (hid : ids[d]? = some id) : ∃ e, es[d]? = some e :=
  exists_getElem? hcount.symm hid

/-- Two places of a list without repetitions. -/
theorem ne_of_nodup {ids : List Nat} {d' : Nat} (h : ids.Nodup) (hid : ids[d]? = some id)
    (hid' : ids[d']? = some id') (hne : d ≠ d') : id ≠ id' := by
  rintro rfl
  obtain ⟨hlt, -⟩ := List.getElem?_eq_some_iff.mp hid
  exact hne ((List.getElem?_inj hlt h).mp (hid.trans hid'.symm))

theorem nodup_of_ne {ids : List Nat}
    (h : ∀ d d' id : Nat, ids[d]? = some id → ids[d']? = some id → d < d' → False) : ids.Nodup := by
  rw [List.nodup_iff_getElem?_ne_getElem?]
  intro d d' hlt hd' heq
  have hid' : ids[d']? = some ids[d'] := List.getElem?_eq_getElem hd'
  exact h d d' _ (heq.trans hid') hid' hlt

section Sharable

variable {es ids : List Nat} (hs : Sharing f name es f' es.length added)
  (hcount : ids.length = es.length)
  (hO : ∀ d e id, es[d]? = some e → ids[d]? = some id → Chosen f name es f' d e id)
  (hpos : ∀ e ∈ es, 0 < e)

include hs hpos

/-- The dimensions of the loop have fixed lengths, as extents are positive. -/
theorem Sharing.not_unlimited (hge : f.dims.length ≤ id) (hlt : id < f'.dims.length) :
    f'.inqUnlim id = false := by
  obtain ⟨D, hD, hget⟩ := hs.ext.exists_added hge hlt
  obtain ⟨hunlim, -, k, -, -, hek, -⟩ := hs.own D hD
  rw [NcFile.inqUnlim, hget]
  exact hunlim.trans (decide_eq_false (hpos D.len (List.mem_of_getElem? hek)).ne')

include hcount hO

/-- Where the axes are well assigned, the file was sharable. -/
theorem Sharing.sharable (h : WellAssigned f f' es ids) : f.Sharable name es := by
  -- there is no record dimension to except
  have hsized : ∀ d e id : Nat, es[d]? = some e → ids[d]? = some id → id ∈ f'.matchingDimids e := by
    intro d e id he hid
    have hlt := (hO d e id he hid).lt
    rcases h.sized d e id he hid with hlen | ⟨hge, hunlim, -⟩
    · exact mem_matchingDimids.mpr ⟨hlt, hlen⟩
    · rw [hs.not_unlimited hpos hge hlt] at hunlim
      cases hunlim
  have hapart : ∀ d d' e : Nat, es[d]? = some e → es[d']? = some e → d ≠ d' →
      f.bestMatch es.length d e ≠ f.bestMatch es.length d' e := by
    intro d d' e he he' hne
    obtain ⟨id, hid⟩ := exists_getElem? hcount he
    obtain ⟨id', hid'⟩ := exists_getElem? hcount he'
    have hids := ne_of_nodup h.distinct hid hid' hne
    by_cases hno : f.matchingDimids e = []
    · exact absurd (hs.alone e id id' hno (hsized d e id he hid) (hsized d' e id' he' hid')) hids
    · rw [(hO d e id he hid).shared hno, (hO d' e id' he' hid').shared hno]
      exact fun heq => hids (Option.some.inj heq)
  refine ⟨fun d e he hno => ?_, hapart, fun d e i hd he hbest => ?_⟩
  · by_contra hname
    obtain ⟨i, hi⟩ := Option.ne_none_iff_exists'.mp hname
    obtain ⟨id, hid⟩ := exists_getElem? hcount he
    -- the axis is the first of its extent, so its dimension was there, and has another length
    obtain rfl := (hO d e id he hid).taken hno (fun k hk hek => absurd
      (by rw [bestMatch_eq_none.mpr hno, bestMatch_eq_none.mpr hno]) (hapart k d e hek he hk.ne))
      i hi
    have hlt := (inqDimid_spec hi).1
    have hmem : id ∈ f.matchingDimids e :=
      mem_matchingDimids.mpr ⟨hlt,
        (hs.ext.inqDimlen hlt).symm.trans (mem_matchingDimids.mp (hsized d e id he hid)).2⟩
    rw [hno] at hmem
    cases hmem
  · obtain ⟨id, hid⟩ := exists_getElem? hcount he
    have hmem := mem_of_bestMatch hbest
    have hshared := (hO d e id he hid).shared (List.ne_nil_of_mem hmem)
    obtain rfl := Option.some.inj (hshared.symm.trans hbest)
    rw [← hs.ext.inqUnlim (mem_matchingDimids.mp hmem).1]
    exact h.leading d id hd hid

theorem Sharing.wellAssigned (h : f.Sharable name es) : WellAssigned f f' es ids := by
  have hsized : ∀ d e id : Nat, es[d]? = some e → ids[d]? = some id → f'.inqDimlen id = e := by
    intro d e id he hid
    by_cases hno : f.matchingDimids e = []
    · exact (hO d e id he hid).fresh hno d le_rfl he (h.unnamed d e he hno)
    · have hmem := mem_matchingDimids.mp
        (mem_of_bestMatch ((hO d e id he hid).shared hno))
      exact (hs.ext.inqDimlen hmem.1).trans hmem.2
  refine ⟨nodup_of_ne fun d d' id hid hid' hlt => ?_,
    fun d e id he hid => .inl (hsized d e id he hid), fun d id hd hid => ?_⟩
  -- one dimension has one length, so the axes have one extent
  · obtain ⟨e, he⟩ := exists_extent hcount hid
    obtain ⟨e', he'⟩ := exists_extent hcount hid'
    obtain rfl : e = e' := (hsized d e id he hid).symm.trans (hsized d' e' id he' hid')
    refine h.apart d d' e he he' hlt.ne ?_
    by_cases hno : f.matchingDimids e = []
    · rw [bestMatch_eq_none.mpr hno, bestMatch_eq_none.mpr hno]
    · rw [(hO d e id he hid).shared hno, (hO d' e id he' hid').shared hno]
  · obtain ⟨e, he⟩ := exists_extent hcount hid
    have hlt := (hO d e id he hid).lt
    -- a dimension of before is the best match, and one of this loop is not unlimited
    rcases Nat.lt_or_ge id f.dims.length with hold | hge
    · have hmem : id ∈ f.matchingDimids e := mem_matchingDimids.mpr
        ⟨hold, (hs.ext.inqDimlen hold).symm.trans (hsized d e id he hid)⟩
      rw [hs.ext.inqUnlim hold]
      exact h.leading d e id hd he ((hO d e id he hid).shared (List.ne_nil_of_mem hmem))
    · exact hs.not_unlimited hpos hge hlt

end Sharable

section Coordinated

variable {es ids : List Nat} (hs : Naming f name es.length f' es.length added)
  (hrank : es.length ≤ maxRank) (hcount : ids.length = es.length)
  (hO : ∀ d e id, es[d]? = some e → ids[d]? = some id → Named f name es.length f' d e id)
  (hpos : ∀ e ∈ es, 0 < e)

include hs hcount hO

/-- Where the axes are well assigned, the file was coordinated. -/
theorem Naming.coordinated (h : WellAssigned f f' es ids) : f.Coordinated name es := by
  intro d e i he hfound
  obtain ⟨id, hid⟩ := exists_getElem? hcount he
  obtain rfl := (hO d e id he hid).found i hfound
  have hlt := (inqDimid_spec hfound).1
  constructor
  · rcases h.sized d e id he hid with hlen | ⟨hge, -⟩
    · rw [← hs.ext.inqDimlen hlt, hlen]
    · omega
  · intro hd
    rw [← hs.ext.inqUnlim hlt]
    exact h.leading d id hd hid

include hrank hpos

theorem Naming.wellAssigned (h : f.Coordinated name es) : WellAssigned f f' es ids := by
  refine ⟨nodup_of_ne fun d d' id hid hid' hlt => ?_, fun d e id he hid => ?_,
    fun d id hd hid => ?_⟩
  -- one dimension does not have two names
  · obtain ⟨e, he⟩ := exists_extent hcount hid
    obtain ⟨e', he'⟩ := exists_extent hcount hid'
    have hd := (List.getElem?_eq_some_iff.mp he).1
    have hd' := (List.getElem?_eq_some_iff.mp he').1
    exact dimName_ne hrank hd hd' hlt.ne
      ((hO d e id he hid).named.symm.trans (hO d' e' id he' hid').named)
  · have hnamed := hO d e id he hid
    cases hfound : f.inqDimid (dimName name es.length d) with
    | some i =>
      obtain rfl := hnamed.found i hfound
      rw [hs.ext.inqDimlen (inqDimid_spec hfound).1]
      exact .inl (h d e id he hfound).1
    | none =>
      obtain ⟨hge, hunlim, hlen⟩ := hnamed.defined hfound
      by_cases htime : dimName name es.length d = text "time"
      · exact .inr ⟨hge, hunlim.trans (decide_eq_true (.inl htime)), hnamed.named.trans htime⟩
      · exact .inl (hlen htime)
  · obtain ⟨e, he⟩ := exists_extent hcount hid
    have hnamed := hO d e id he hid
    have hlt := (List.getElem?_eq_some_iff.mp he).1
    cases hfound : f.inqDimid (dimName name es.length d) with
    | some i =>
      obtain rfl := hnamed.found i hfound
      rw [hs.ext.inqUnlim (inqDimid_spec hfound).1]
      exact (h d e id he hfound).2 hd
    | none =>
      obtain ⟨-, hunlim, -⟩ := hnamed.defined hfound
      rw [hunlim, decide_eq_false_iff_not]
      rintro (htime | rfl)
      · obtain ⟨-, hone⟩ := dimName_time (hlt.trans_le hrank) htime
        omega
      · exact absurd (hpos 0 (List.mem_of_getElem? he)) (lt_irrefl 0)

end Coordinated

end NcFile

open NcFile

/-- There are at most `maxRank` axes. -/
theorem length_extentList_le (m : VarMeta) : m.shape.extentList.length ≤ maxRank := by
  rw [Shape.extentList, List.length_map]
  exact length_dims_le m.shape.rank

/-- **When the dimensions of a new variable are well formed**: exactly when the file, as it was
before, keeps its axes apart. -/
theorem dimensions_iff {lib : Library} {d : Driver} {m : VarMeta} {g : NcFile} {v : NcVar}
    (hpos : ∀ e ∈ m.shape.extentList, 0 < e) (h : d.define lib m = some (g, v)) :
    WellAssigned d.file g m.shape.extentList v.dimids ↔
      d.file.Assignable m.name m.shape.extentList := by
  have hrank := length_extentList_le m
  unfold Driver.define at h
  split at h
  · obtain ⟨⟨f', ids⟩, hdims, h⟩ := Option.bind_eq_some_iff.mp h
    obtain ⟨dtype, -, hvar⟩ := Option.bind_eq_some_iff.mp h
    obtain ⟨hg, -, -, rfl⟩ := defVar_spec hvar
    -- only the dimensions count, and `nc_def_var` leaves them alone
    have hsame : WellAssigned d.file g m.shape.extentList v.dimids ↔
        WellAssigned d.file f' m.shape.extentList v.dimids := by
      have hlen : g.inqDimlen = f'.inqDimlen := by
        funext id
        rw [inqDimlen, hg]
        rfl
      have hunlim : g.inqUnlim = f'.inqUnlim := by
        funext id
        rw [inqUnlim, hg]
        rfl
      have hname : g.inqDimname = f'.inqDimname := by
        funext id
        rw [inqDimname, hg]
        rfl
      constructor
      · rintro ⟨hdistinct, hsized, hleading⟩
        rw [hlen, hunlim, hname] at hsized
        rw [hunlim] at hleading
        exact ⟨hdistinct, hsized, hleading⟩
      · rintro ⟨hdistinct, hsized, hleading⟩
        rw [← hlen, ← hunlim, ← hname] at hsized
        rw [← hunlim] at hleading
        exact ⟨hdistinct, hsized, hleading⟩
    rw [hsame]
    unfold Assignable
    cases hcoord : isCoordinate m.name with
    | true =>
      obtain ⟨⟨added, hs⟩, hcount, hO⟩ := defineDims_naming hcoord hrank hdims
      exact ⟨hs.coordinated hcount hO, hs.wellAssigned hrank hcount hO hpos⟩
    | false =>
      obtain ⟨⟨added, hs⟩, hcount, hO⟩ := defineDims_sharing hcoord hrank hdims
      exact ⟨hs.sharable hcount hO hpos, hs.wellAssigned hcount hO hpos⟩
  · cases h

/-- In a file without dimensions it is enough that the extents differ. -/
theorem assignable_empty {name : List UInt8} {es : List Nat} (h : es.Nodup) :
    NcFile.empty.Assignable name es := by
  unfold Assignable
  split
  · exact fun _ _ _ _ hfound => absurd hfound nofun
  · refine ⟨fun _ _ _ _ => rfl, fun d d' e he he' hne => ?_, fun _ _ _ _ _ hbest => ?_⟩
    · exact absurd rfl (ne_of_nodup h he he' hne)
    · exact absurd (mem_of_bestMatch hbest) (by simp [empty])

/-- A new variable `a`. -/
def newArray (rank : Int) (extents : Fin maxRank → Int) : VarMeta :=
  { datasetId := 1, name := text "a", dtype := some .u8, shape := ⟨rank, extents, fun _ => 0⟩ }

/-- A file without variables, open for writing. -/
def withDims (ds : List NcDim) : Driver := ⟨true, true, fun _ => none, ⟨ds, fun _ => none⟩⟩

theorem dimensions_of_oblong :
    ∃ g v, (withDims []).define permissive (newArray 2 fun k => 4 + k) = some (g, v) ∧
      WellAssigned .empty g [4, 5] v.dimids := by
  have hpos : ∀ e ∈ (newArray 2 fun k => 4 + k).shape.extentList, 0 < e := by decide
  have hdistinct : (newArray 2 fun k => 4 + k).shape.extentList.Nodup := by decide
  obtain ⟨g, v, h⟩ : ∃ g v, (withDims []).define permissive (newArray 2 fun k => 4 + k) =
      some (g, v) := ⟨_, _, rfl⟩
  exact ⟨g, v, h, (dimensions_iff hpos h).2 (assignable_empty hdistinct)⟩

/-- A square array gets one dimension twice, and an array of four gets the dimension of three that
has its default name. -/
theorem square_and_leftover :
    (∃ g v, (withDims []).define permissive (newArray 2 fun _ => 5) = some (g, v) ∧
      v.dimids = [0, 0] ∧ ¬ WellAssigned .empty g [5, 5] v.dimids) ∧
    ∃ g v, (withDims [⟨text "a_dim0", false, 3⟩]).define permissive (newArray 1 fun _ => 4) =
      some (g, v) ∧ v.dimids = [0] ∧ g.inqDimlen 0 = 3 ∧
      ¬ WellAssigned (withDims [⟨text "a_dim0", false, 3⟩]).file g [4] v.dimids := by
  refine ⟨⟨_, _, rfl, rfl, fun h => ?_⟩, _, _, rfl, rfl, rfl, fun h => ?_⟩
  · exact absurd h.distinct (by decide)
  · have hsized := h.sized 0 4 0 rfl rfl
    revert hsized
    decide

end Amio.NetCdf
