import Amio.Drivers.NetCdf
import Mathlib.Tactic.IntervalCases

/-!
# What NetCDF gives back

A variable is described by its dimensions, and these are shared between variables by length and by
name. So a round trip is a statement about the whole file: `Laid` says that every variable that was
written has dimensions of the lengths it was written with and holds its last block, and that every
dimension is named after a variable that is defined. The latter is why a new variable never runs
into a dimension of its own default name, whose length nobody would have compared; and an unlimited
dimension never grows, because all blocks along it have the length that it was found or made with.

Which leading dimension is taken for a time axis does not matter in the end: the rows of an array in
row-major order, one after the other, are the array (`round_trip`).
-/

namespace Amio.NetCdf

open RowMajor

/-! ### Names -/

section Names

variable {name name' : List UInt8} {rank rank' d d' : Nat}

/-- The suffix of a default name. -/
theorem length_suffix (hd : d < maxRank) : (text "_dim" ++ text (toString d)).length = 5 := by
  interval_cases d <;> rfl

/-- Different axes have different suffixes. -/
theorem suffix_inj (hd : d < maxRank) (hd' : d' < maxRank)
    (h : text "_dim" ++ text (toString d) = text "_dim" ++ text (toString d')) : d = d' := by
  interval_cases d <;> interval_cases d' <;> first | rfl | exact absurd h (by decide)

/-- The names of coordinates are short. -/
theorem length_coordinate (h : isCoordinate name = true) : name.length ≤ 4 := by
  rcases of_decide_eq_true h with rfl | rfl | rfl | rfl <;> decide

/-- A coordinate has a dimension of its own name. -/
theorem dimName_coordinate (h : isCoordinate name = true) : dimName name 1 d = name :=
  if_pos ⟨h, rfl⟩

/-- Any other axis has a default name. -/
theorem dimName_default (h : ¬ (isCoordinate name = true ∧ rank = 1)) :
    dimName name rank d = name ++ (text "_dim" ++ text (toString d)) := by
  rw [dimName, if_neg h, List.append_assoc]

theorem length_default (h : ¬ (isCoordinate name = true ∧ rank = 1)) (hd : d < maxRank) :
    5 ≤ (dimName name rank d).length := by
  rw [dimName_default h, List.length_append, length_suffix hd]
  omega

/-- **A dimension is named after one variable.** -/
theorem dimName_inj (hd : d < maxRank) (hd' : d' < maxRank)
    (h : dimName name rank d = dimName name' rank' d') : name = name' := by
  by_cases hc : isCoordinate name = true ∧ rank = 1
  · by_cases hc' : isCoordinate name' = true ∧ rank' = 1
    · rwa [hc.2, hc'.2, dimName_coordinate hc.1, dimName_coordinate hc'.1] at h
    -- the names of coordinates are shorter than default names
    · have hlong := length_default hc' hd'
      have hshort := length_coordinate hc.1
      rw [← h, hc.2, dimName_coordinate hc.1] at hlong
      omega
  · by_cases hc' : isCoordinate name' = true ∧ rank' = 1
    · have hlong := length_default hc hd
      have hshort := length_coordinate hc'.1
      rw [h, hc'.2, dimName_coordinate hc'.1] at hlong
      omega
    · rw [dimName_default hc, dimName_default hc'] at h
      refine (List.append_inj' h ?_).1
      rw [length_suffix hd, length_suffix hd']

/-- … and of one variable each dimension has a name of its own. -/
theorem dimName_ne (hrank : rank ≤ maxRank) (hd : d < rank) (hd' : d' < rank) (hne : d ≠ d') :
    dimName name rank d ≠ dimName name rank d' := by
  have hc : ¬ (isCoordinate name = true ∧ rank = 1) := by
    rintro ⟨-, rfl⟩
    omega
  intro h
  rw [dimName_default hc, dimName_default hc] at h
  exact hne (suffix_inj (hd.trans_le hrank) (hd'.trans_le hrank) (List.append_cancel_left h))

/-- Only the variable `time` of rank one has the record dimension. -/
theorem dimName_time (hd : d < maxRank) (h : dimName name rank d = text "time") :
    name = text "time" ∧ rank = 1 := by
  by_cases hc : isCoordinate name = true ∧ rank = 1
  · rw [hc.2, dimName_coordinate hc.1] at h
    exact ⟨h, hc.2⟩
  · have hlong := length_default hc hd
    rw [h] at hlong
    exact absurd hlong (by decide)

end Names

/-! ### Dimensions -/

namespace NcFile

variable {lib : Library} {f f' : NcFile} {name : List UInt8} {rank d len id : Nat}
  {ids lens : List Nat}

/-- The search ends at one of the candidates. -/
theorem mem_of_bestDim {score : List UInt8 → Int} (h : f.bestDim score ids = some id) :
    id ∈ ids := by
  -- the best so far is one of those that were looked at, or the one that the loop began with
  have hfold : ∀ (l : List Nat) (best : Int × Option Nat),
      (l.foldl (fun best id => if best.1 < score (f.inqDimname id) then
        (score (f.inqDimname id), some id) else best) best).2 = some id →
      id ∈ l ∨ best.2 = some id := by
    intro l
    induction l with
    | nil => exact fun best hbest => .inr hbest
    | cons i l ih =>
      intro best hbest
      rcases ih _ hbest with hmem | hsome
      · exact .inl (List.mem_cons_of_mem _ hmem)
      · dsimp only at hsome
        split at hsome
        · obtain rfl := Option.some.inj hsome
          exact .inl List.mem_cons_self
        · exact .inr hsome
  exact (hfold ids _ h).resolve_right nofun

/-- **A shared dimension has the length that was asked for.** -/
theorem sharedDim_spec (h : f.sharedDim rank d len = some id) :
    id < f.dims.length ∧ f.inqDimlen id = len := by
  have hmem : id ∈ f.matchingDimids len := by
    unfold sharedDim at h
    split at h
    · cases h
    · next i hids =>
      obtain rfl := Option.some.inj h
      rw [hids]
      exact List.mem_singleton_self _
    · exact mem_of_bestDim h
  simpa [matchingDimids] using hmem

/-- A name that no dimension has is not found. -/
theorem inqDimid_eq_none (h : ∀ D ∈ f.dims, D.name ≠ name) : f.inqDimid name = none := by
  rw [inqDimid, List.findIdx?_eq_none_iff]
  intro D hD
  simpa using h D hD

/-- The dimensions of `f` with some more. -/
def Extends (f f' : NcFile) (added : List NcDim) : Prop :=
  f'.dims = f.dims ++ added ∧ f'.vars = f.vars

theorem Extends.refl (f : NcFile) : f.Extends f [] := ⟨(List.append_nil _).symm, rfl⟩

theorem Extends.trans {f'' : NcFile} {added added' : List NcDim} (h : f.Extends f' added)
    (h' : f'.Extends f'' added') : f.Extends f'' (added ++ added') :=
  ⟨by rw [h'.1, h.1, List.append_assoc], h'.2.trans h.2⟩

/-- The older dimensions are there. -/
theorem Extends.lt {added : List NcDim} (h : f.Extends f' added) (hid : id < f.dims.length) :
    id < f'.dims.length := by
  rw [h.1, List.length_append]
  omega

/-- Dimensions that are added do not change those that are there. -/
theorem Extends.inqDimlen {added : List NcDim} (h : f.Extends f' added)
    (hid : id < f.dims.length) : f'.inqDimlen id = f.inqDimlen id := by
  rw [NcFile.inqDimlen, h.1, List.getElem?_append_left hid]
  rfl

/-- The dimension that was defined last. -/
theorem Extends.last {D : NcDim} (h : f.Extends f' [D]) :
    f.dims.length < f'.dims.length ∧ f'.dims[f.dims.length]? = some D := by
  rw [h.1, List.length_append]
  exact ⟨Nat.lt_succ_self _, by simp⟩

theorem defDim_spec (h : f.defDim lib name len = some (f', id)) :
    id = f.dims.length ∧ f.Extends f' [⟨name, decide (len = 0), len⟩] := by
  unfold defDim at h
  split at h
  · obtain ⟨rfl, rfl⟩ := Prod.mk.inj (Option.some.inj h)
    exact ⟨rfl, rfl, rfl⟩
  · cases h

/-- What one turn of the loop does when no dimension has the default name: it finds a dimension of
the right length, or defines one. -/
theorem defineDim_spec (hfresh : ∀ D ∈ f.dims, D.name ≠ dimName name rank d)
    (h : f.defineDim lib name rank d len = some (f', id)) :
    (f' = f ∧ isCoordinate name = false ∧ id < f.dims.length ∧ f.inqDimlen id = len) ∨
    (id = f.dims.length ∧ ∃ n, f.Extends f' [⟨dimName name rank d, decide (n = 0), n⟩] ∧
      n = if dimName name rank d = text "time" then 0 else len) := by
  unfold defineDim at h
  split at h
  -- a dimension of the file is shared, but not by a coordinate
  · next i hshared =>
    obtain ⟨rfl, rfl⟩ := Prod.mk.inj (Option.some.inj h)
    split at hshared
    · cases hshared
    · next hc =>
      obtain ⟨hlt, hlen⟩ := sharedDim_spec hshared
      exact .inl ⟨rfl, by simpa using hc, hlt, hlen⟩
  -- or a new one is made under the name of the axis
  · rw [inqDimid_eq_none hfresh] at h
    obtain ⟨hid, hext⟩ := defDim_spec h
    exact .inr ⟨hid, _, hext, rfl⟩

/-- An invariant of the loop, and what one turn says of the dimension it comes out with. -/
theorem defineDims_run {es : List Nat} {cur : NcFile} {I : NcFile → Nat → Prop}
    {O : NcFile → Nat → Nat → Nat → Prop}
    (hstable : ∀ cur cur' added d e id, NcFile.Extends cur cur' added → O cur d e id →
      O cur' d e id)
    (hstep : ∀ cur cur' d e id, I cur d → es[d]? = some e →
      defineDim lib cur name es.length d e = some (cur', id) →
      (∃ added, cur.Extends cur' added) ∧ I cur' (d + 1) ∧ O cur' d e id)
    (hlens : es.drop d = lens) (hI : I cur d)
    (h : defineDims lib name es.length cur d lens = some (f', ids)) :
    (∃ added, cur.Extends f' added) ∧ I f' (d + lens.length) ∧ ids.length = lens.length ∧
      ∀ k e id, lens[k]? = some e → ids[k]? = some id → O f' (d + k) e id := by
  induction lens generalizing cur d ids with
  | nil =>
    obtain ⟨rfl, rfl⟩ := Prod.mk.inj (Option.some.inj h)
    exact ⟨⟨[], .refl _⟩, hI, rfl, nofun⟩
  | cons e lens ih =>
    obtain ⟨⟨cur₁, id⟩, hdim, hrest⟩ := Option.bind_eq_some_iff.mp h
    obtain ⟨⟨f₂, ids'⟩, hdims, heq⟩ := Option.map_eq_some_iff.mp hrest
    obtain ⟨rfl, rfl⟩ := Prod.mk.inj heq
    have he : es[d]? = some e := by
      rw [← List.head?_drop, hlens]
      rfl
    have hlens' : es.drop (d + 1) = lens := by
      rw [← List.tail_drop, hlens]
      rfl
    obtain ⟨⟨added₁, hext₁⟩, hI₁, hO₁⟩ := hstep cur cur₁ d e id hI he hdim
    obtain ⟨⟨added₂, hext₂⟩, hI₂, hcount, hO₂⟩ := ih hlens' hI₁ hdims
    refine ⟨⟨_, hext₁.trans hext₂⟩, ?_, ?_, fun k e' id' he' hid' => ?_⟩
    · rwa [List.length_cons, Nat.add_comm lens.length, ← Nat.add_assoc]
    · rw [List.length_cons, List.length_cons, hcount]
    · cases k with
      -- what the first turn says of its dimension stays true as the file grows
      | zero =>
        obtain rfl := Option.some.inj he'
        obtain rfl := Option.some.inj hid'
        exact hstable _ _ _ _ _ _ hext₂ hO₁
      | succ k =>
        have hO := hO₂ k e' id' he' hid'
        rwa [Nat.add_assoc, Nat.add_comm 1 k] at hO

/-- **The loop over the dimensions of a new variable**, which has no record dimension: every
dimension it comes out with has the length that was asked for. -/
theorem defineDims_spec (hrank : lens.length ≤ maxRank)
    (hrecord : ¬ (name = text "time" ∧ lens.length = 1))
    (hfresh : ∀ k, k < lens.length → ∀ D ∈ f.dims, D.name ≠ dimName name lens.length k)
    (h : defineDims lib name lens.length f 0 lens = some (f', ids)) :
    ∃ added, f.Extends f' added ∧
      (∀ D ∈ added, ∃ k, k < lens.length ∧ D.name = dimName name lens.length k) ∧
      ids.map f'.inqDimlen = lens ∧ ∀ id ∈ ids, id < f'.dims.length := by
  -- the dimensions so far have default names of earlier axes
  have hrun := defineDims_run
    (I := fun cur d => ∃ added, f.Extends cur added ∧
      ∀ D ∈ added, ∃ k, k < d ∧ D.name = dimName name lens.length k)
    (O := fun cur _ e id => id < cur.dims.length ∧ cur.inqDimlen id = e)
    (fun _ _ _ _ _ _ hext hO => ⟨hext.lt hO.1, (hext.inqDimlen hO.1).trans hO.2⟩)
    (fun cur cur' d e id hI he hdim => ?_) List.drop_zero ⟨[], .refl f, nofun⟩ h
  · obtain ⟨-, ⟨added, hext, hnames⟩, hcount, hO⟩ := hrun
    refine ⟨added, hext, fun D hD => ?_, List.ext_getElem? fun k => ?_, fun id hid => ?_⟩
    · obtain ⟨k, hk, hname⟩ := hnames D hD
      exact ⟨k, by omega, hname⟩
    · rw [List.getElem?_map]
      rcases Nat.lt_or_ge k lens.length with hlt | hge
      · have he := List.getElem?_eq_getElem hlt
        have hid := List.getElem?_eq_getElem (hcount.symm ▸ hlt : k < ids.length)
        rw [hid, he, Option.map_some, (hO k _ _ he hid).2]
      · rw [List.getElem?_eq_none (by omega), List.getElem?_eq_none hge]
        rfl
    · obtain ⟨k, hid⟩ := List.mem_iff_getElem?.mp hid
      have hlt : k < lens.length := hcount ▸ (List.getElem?_eq_some_iff.mp hid).1
      exact (hO k _ id (List.getElem?_eq_getElem hlt) hid).1
  · obtain ⟨added, hext, hnames⟩ := hI
    have hd : d < lens.length := (List.getElem?_eq_some_iff.mp he).1
    have hfresh' : ∀ D ∈ cur.dims, D.name ≠ dimName name lens.length d := by
      intro D hD
      rw [hext.1] at hD
      rcases List.mem_append.mp hD with hold | hnew
      · exact hfresh d hd D hold
      · obtain ⟨k, hk, hname⟩ := hnames D hnew
        rw [hname]
        exact dimName_ne hrank (by omega) hd (by omega)
    have hnames' : ∀ D ∈ added, ∃ k, k < d + 1 ∧ D.name = dimName name lens.length k := by
      intro D hD
      obtain ⟨k, hk, hname⟩ := hnames D hD
      exact ⟨k, by omega, hname⟩
    -- one turn: it adds no dimension, or the one of the default name
    rcases defineDim_spec hfresh' hdim with ⟨rfl, -, hlt, hlen⟩ | ⟨rfl, n, hnew, hn⟩
    · exact ⟨⟨[], .refl _⟩, ⟨added, hext, hnames'⟩, hlt, hlen⟩
    · have hne : dimName name lens.length d ≠ text "time" :=
        fun htime => hrecord (dimName_time (hd.trans_le hrank) htime)
      rw [if_neg hne] at hn
      subst hn
      refine ⟨⟨_, hnew⟩, ⟨_, hext.trans hnew, fun D hD => ?_⟩, ?_, ?_⟩
      · rcases List.mem_append.mp hD with hold | hlast
        · exact hnames' D hold
        · exact ⟨d, Nat.lt_succ_self d, by rw [List.mem_singleton.mp hlast]⟩
      · exact hnew.last.1
      · rw [NcFile.inqDimlen, hnew.last.2]
        rfl

/-- The variable `time` of rank one defines the record dimension, of length zero for now. -/
theorem defineDims_record (hfresh : ∀ D ∈ f.dims, D.name ≠ text "time")
    (h : defineDims lib (text "time") 1 f 0 [len] = some (f', ids)) :
    ids = [f.dims.length] ∧ f.Extends f' [⟨text "time", true, 0⟩] := by
  obtain ⟨⟨f₁, id⟩, hdim, hrest⟩ := Option.bind_eq_some_iff.mp h
  obtain ⟨rfl, rfl⟩ := Prod.mk.inj (Option.some.inj hrest)
  have hcoord : isCoordinate (text "time") = true := by decide
  have hname : dimName (text "time") 1 0 = text "time" := dimName_coordinate hcoord
  -- the record coordinate has a dimension of its own, which is unlimited
  rcases defineDim_spec (by rw [hname]; exact hfresh) hdim with
    ⟨-, hnot, -⟩ | ⟨rfl, n, hext, hn⟩
  · rw [hcoord] at hnot
    cases hnot
  · rw [hname, if_pos rfl] at hn
    subst hn
    rw [hname] at hext
    exact ⟨rfl, hext⟩

/-- A dimension that is long enough does not grow. -/
theorem grow_eq_self {ds : List NcDim} {n : Nat} (h : ∀ D, ds[id]? = some D → n ≤ D.len) :
    grow ds (id, n) = ds := by
  refine List.ext_getElem? fun j => ?_
  rw [grow, List.getElem?_modify]
  cases hD : ds[j]? with
  | none => rfl
  | some D =>
    by_cases hj : id = j
    · subst hj
      simp [h D hD]
    · simp [hj]

/-- **Blocks of the lengths that the dimensions have make none of them longer.** -/
theorem foldl_grow_self (f : NcFile) (ids : List Nat) :
    (ids.zip (ids.map f.inqDimlen)).foldl grow f.dims = f.dims := by
  induction ids with
  | nil => rfl
  | cons id ids ih =>
    rw [List.map_cons, List.zip_cons_cons, List.foldl_cons, grow_eq_self, ih]
    intro D hD
    rw [NcFile.inqDimlen, hD]
    exact le_rfl

/-- The first block along the record dimension gives it its length. -/
theorem grow_record (ds : List NcDim) (name : List UInt8) (n : Nat) :
    grow (ds ++ [⟨name, true, 0⟩]) (ds.length, n) = ds ++ [⟨name, true, n⟩] := by
  refine List.ext_getElem? fun j => ?_
  rw [grow, List.getElem?_modify]
  rcases Nat.lt_trichotomy j ds.length with hlt | rfl | hgt
  · rw [List.getElem?_append_left hlt, List.getElem?_append_left hlt]
    simp [Nat.ne_of_gt hlt]
  · simp
  · rw [List.getElem?_eq_none (by simp; omega), List.getElem?_eq_none (by simp; omega)]
    rfl

theorem putVara_spec {v : NcVar} {count : List Nat} {data : List UInt8}
    (h : f.putVara lib name v count data = some f') :
    f'.dims = (v.dimids.zip count).foldl grow f.dims ∧
      f'.vars = Function.update f.vars name (some { v with
        content := fun is =>
          if is ∈ cells count then
            (data.drop (position count is * v.type.size)).take v.type.size
          else v.content is }) := by
  simp only [putVara] at h
  split at h
  · obtain rfl := Option.some.inj h
    exact ⟨rfl, rfl⟩
  · cases h

end NcFile

/-! ### The file after a sequence of writes -/

/-- One `write`. -/
structure Write where
  src : List UInt8
  varMeta : VarMeta

namespace Write

def name (w : Write) : List UInt8 := w.varMeta.name

def extents (w : Write) : List Nat := w.varMeta.shape.extentList

/-- The bytes of an element. -/
def size (w : Write) : Nat := elementSize w.varMeta.dtype

/-- What the write path lets through: a valid shape and type, and a payload in memory. -/
structure Valid (w : Write) : Prop where
  shape : validateShape w.varMeta.shape = true
  dtype : elementSize w.varMeta.dtype ≠ 0
  payload : w.src.length = w.extents.prod * w.size
  memory : w.src.length < 2 ^ 64

end Write

/-- The last write to a name. -/
def lastWrite (ws : List Write) (name : List UInt8) : Option Write :=
  ws.reverse.find? fun w => w.name = name

/-- The last write after one more. -/
theorem lastWrite_append (ws : List Write) (w : Write) (name : List UInt8) :
    lastWrite (ws ++ [w]) name = if w.name = name then some w else lastWrite ws name := by
  rw [lastWrite, List.reverse_append, List.reverse_singleton, List.singleton_append,
    List.find?_cons]
  split
  · next h => rw [if_pos (of_decide_eq_true h)]
  · next h => rw [if_neg (of_decide_eq_false h)]; rfl

/-- The last write is one of them. -/
theorem mem_of_lastWrite {ws : List Write} {name : List UInt8} {w : Write}
    (h : lastWrite ws name = some w) : w ∈ ws ∧ w.name = name := by
  refine ⟨List.mem_reverse.mp (List.mem_of_find?_eq_some h), ?_⟩
  simpa using List.find?_some h

/-- Variable `v` has the dimensions of the write `w` and holds its block. -/
structure Stored (f : NcFile) (w : Write) (v : NcVar) : Prop where
  type : ∃ dtype, w.varMeta.dtype = some dtype ∧ v.type = dtypeToNcType dtype
  lens : v.dimids.map f.inqDimlen = w.extents
  ids : ∀ id ∈ v.dimids, id < f.dims.length
  content : ∀ is ∈ cells w.extents,
    v.content is = (w.src.drop (position w.extents is * w.size)).take w.size

/-- The invariant of the file. -/
structure Laid (f : NcFile) (ws : List Write) : Prop where
  written : ∀ name w, lastWrite ws name = some w → ∃ v, f.vars name = some v ∧ Stored f w v
  unwritten : ∀ name, lastWrite ws name = none → f.vars name = none
  -- every dimension is named after a variable that was written
  named : ∀ D ∈ f.dims, ∃ name rank k, k < maxRank ∧ D.name = dimName name rank k ∧
    lastWrite ws name ≠ none

variable {lib : Library} {f f' : NcFile} {ws : List Write} {w : Write} {v : NcVar}

theorem Laid.empty : Laid .empty [] := ⟨nofun, fun _ _ => rfl, nofun⟩

/-- What is stored does not depend on dimensions that come later. -/
theorem Stored.extends (h : Stored f w v) (hdims : ∀ id, id < f.dims.length →
    id < f'.dims.length ∧ f'.inqDimlen id = f.inqDimlen id) : Stored f' w v where
  type := h.type
  lens := by
    rw [← h.lens]
    exact List.map_congr_left fun id hid => (hdims id (h.ids id hid)).2
  ids id hid := (hdims id (h.ids id hid)).1
  content := h.content

/-- A write that stores its own variable and leaves the others and the dimensions alone. -/
theorem Laid.write (h : Laid f ws) (hself : ∃ v, f'.vars w.name = some v ∧ Stored f' w v)
    (hvars : ∀ name, name ≠ w.name → f'.vars name = f.vars name)
    (hdims : ∀ id, id < f.dims.length →
      id < f'.dims.length ∧ f'.inqDimlen id = f.inqDimlen id)
    (hnames : ∀ D ∈ f'.dims, D ∈ f.dims ∨
      ∃ rank k, k < maxRank ∧ D.name = dimName w.name rank k) : Laid f' (ws ++ [w]) := by
  refine ⟨fun name w' hw' => ?_, fun name hnone => ?_, fun D hD => ?_⟩
  -- the last write of the name is this one, or it is an older one of another name
  · rw [lastWrite_append] at hw'
    split at hw'
    · next hname =>
      obtain rfl := Option.some.inj hw'
      rw [← hname]
      exact hself
    · next hname =>
      obtain ⟨v, hv, hstored⟩ := h.written name w' hw'
      exact ⟨v, (hvars name (Ne.symm hname)).trans hv, hstored.extends hdims⟩
  · rw [lastWrite_append] at hnone
    split at hnone
    · cases hnone
    · next hname => exact (hvars name (Ne.symm hname)).trans (h.unwritten name hnone)
  -- a dimension is an old one, or it was added under the name of this write
  · rcases hnames D hD with hold | ⟨rank, k, hk, hname⟩
    · obtain ⟨name, rank, k, hk, hname, hlast⟩ := h.named D hold
      refine ⟨name, rank, k, hk, hname, ?_⟩
      rw [lastWrite_append]
      split
      · exact nofun
      · exact hlast
    · refine ⟨w.name, rank, k, hk, hname, ?_⟩
      rw [lastWrite_append, if_pos rfl]
      exact nofun

/-- The types have the same size. -/
theorem size_dtypeToNcType (dtype : Dtype) : (dtypeToNcType dtype).size = dtype.elementSize := by
  cases dtype <;> rfl

/-- The block of a write, in a variable of its type. -/
theorem size_eq (htype : ∃ dtype, w.varMeta.dtype = some dtype ∧ v.type = dtypeToNcType dtype) :
    v.type.size = w.size := by
  obtain ⟨dtype, hdtype, htype⟩ := htype
  rw [htype, size_dtypeToNcType, Write.size, hdtype]
  rfl

/-- A valid write has a rank. -/
theorem Write.Valid.exists_rank (h : w.Valid) : ∃ k : Nat, w.varMeta.shape.rank = k ∧
    1 ≤ k ∧ k ≤ maxRank ∧ w.extents.length = k := by
  have hshape := h.shape
  simp only [validateShape, Bool.and_eq_true, decide_eq_true_eq] at hshape
  obtain ⟨⟨hpos, hle⟩, -⟩ := hshape
  obtain ⟨k, hk⟩ : ∃ k : Nat, w.varMeta.shape.rank = k := ⟨_, (Int.toNat_of_nonneg (by omega)).symm⟩
  have hkle : k ≤ maxRank := by omega
  refine ⟨k, hk, by omega, hkle, ?_⟩
  rw [Write.extents, Shape.extentList, List.length_map, hk, length_dims hkle]

/-- None of its axes is empty. -/
theorem Write.Valid.pos (h : w.Valid) : ∀ e ∈ w.extents, 0 < e := by
  have hshape := h.shape
  simp only [validateShape, Bool.and_eq_true, List.all_eq_true, decide_eq_true_eq] at hshape
  intro e he
  obtain ⟨k, hk, rfl⟩ := List.mem_map.mp he
  have := hshape.2 k hk
  omega

/-- A block is put in a file that differs from `f` in the variable and in new dimensions of it. -/
theorem Laid.put (h : Laid f ws) {g : NcFile} {added : List NcDim}
    (hput : g.putVara lib w.name v w.extents w.src = some f')
    (hvars : ∀ name, name ≠ w.name → g.vars name = f.vars name)
    (hdims : f'.dims = f.dims ++ added)
    (hnames : ∀ D ∈ added, ∃ rank k, k < maxRank ∧ D.name = dimName w.name rank k)
    (htype : ∃ dtype, w.varMeta.dtype = some dtype ∧ v.type = dtypeToNcType dtype)
    (hlens : v.dimids.map f'.inqDimlen = w.extents)
    (hids : ∀ id ∈ v.dimids, id < f'.dims.length) : Laid f' (ws ++ [w]) := by
  obtain ⟨-, hput⟩ := NcFile.putVara_spec hput
  have hself := congrFun hput w.name
  rw [Function.update_self] at hself
  refine h.write ⟨_, hself, htype, hlens, hids, fun is his => ?_⟩
    (fun name hne => ?_) (fun id hid => ?_) fun D hD => ?_
  · show (if is ∈ cells w.extents then _ else _) = _
    rw [if_pos his, size_eq htype]
  · rw [hput, Function.update_of_ne hne]
    exact hvars name hne
  · rw [NcFile.inqDimlen, hdims, List.getElem?_append_left hid, List.length_append]
    exact ⟨Nat.lt_add_right _ hid, rfl⟩
  · rw [hdims] at hD
    exact (List.mem_append.mp hD).imp_right (hnames D)

theorem defVar_spec {g : NcFile} {name : List UInt8} {type : NcType} {ids : List Nat}
    {attributes : List UInt8 → Option AttrValue}
    (h : f.defVar lib name type ids attributes = some (g, v)) :
    g.dims = f.dims ∧ (∀ name', name' ≠ name → g.vars name' = f.vars name') ∧ v.type = type ∧
      v.dimids = ids := by
  unfold NcFile.defVar at h
  split at h
  · obtain ⟨rfl, rfl⟩ := Prod.mk.inj (Option.some.inj h)
    exact ⟨rfl, fun name' hne => Function.update_of_ne hne _ _, rfl, rfl⟩
  · cases h

variable {d d' : Driver}

/-- The write that defines its variable. -/
theorem Laid.define (h : Laid d.file ws) (hvalid : w.Valid) (hnew : lastWrite ws w.name = none)
    {g : NcFile} (hdefine : d.define lib w.varMeta = some (g, v))
    (hput : g.putVara lib w.name v w.extents w.src = some f') : Laid f' (ws ++ [w]) := by
  obtain ⟨k, -, -, hkle, hk⟩ := hvalid.exists_rank
  unfold Driver.define at hdefine
  split at hdefine
  · obtain ⟨⟨f₁, ids⟩, hdims, hdefine⟩ := Option.bind_eq_some_iff.mp hdefine
    obtain ⟨dtype, hdtype, hvar⟩ := Option.bind_eq_some_iff.mp hdefine
    obtain ⟨hg, hvars, htype, rfl⟩ := defVar_spec hvar
    have hdims : NcFile.defineDims lib w.name k d.file 0 w.extents = some (f₁, v.dimids) := by
      rw [← hk]
      exact hdims
    -- nothing is named after a variable that is not there
    have hfresh : ∀ rank i, i < maxRank → ∀ D ∈ d.file.dims, D.name ≠ dimName w.name rank i := by
      intro rank i hi D hD heq
      obtain ⟨name, rank', i', hi', hname, hlast⟩ := h.named D hD
      rw [heq] at hname
      exact hlast (dimName_inj hi hi' hname ▸ hnew)
    obtain ⟨hgrown, -⟩ := NcFile.putVara_spec hput
    by_cases hrecord : w.name = text "time" ∧ k = 1
    · obtain ⟨hname, rfl⟩ := hrecord
      obtain ⟨e, he⟩ := List.length_eq_one_iff.mp hk
      have hname₁ : dimName w.name 1 0 = text "time" := by
        rw [hname]
        exact dimName_coordinate (by decide)
      rw [he, hname] at hdims
      obtain ⟨hids, hext⟩ := NcFile.defineDims_record
        (fun D hD => hname₁ ▸ hfresh 1 0 (by decide) D hD) hdims
      have hdims' : f'.dims = d.file.dims ++ [⟨text "time", true, e⟩] := by
        rw [hgrown, hg, hext.1, hids, he]
        exact NcFile.grow_record _ _ _
      refine h.put hput (fun name hne => (hvars name hne).trans (by rw [hext.2])) hdims'
        (fun D hD => ⟨1, 0, by decide, ?_⟩) ⟨dtype, hdtype, htype⟩ ?_ ?_
      · rw [List.mem_singleton.mp hD, hname₁]
      · rw [hids, he, List.map_singleton, NcFile.inqDimlen, hdims',
          List.getElem?_append_right le_rfl, Nat.sub_self]
        rfl
      · rw [hids, hdims', List.length_append]
        intro id hid
        rw [List.mem_singleton.mp hid]
        exact Nat.lt_succ_self _
    · subst hk
      obtain ⟨added, hext, hnames, hlens, hids⟩ := NcFile.defineDims_spec hkle hrecord
        (fun i hi => hfresh w.extents.length i (hi.trans_le hkle)) hdims
      have hsame : f'.dims = f₁.dims := by
        rw [hgrown, hg, ← hlens]
        exact NcFile.foldl_grow_self f₁ v.dimids
      have hlen : f'.inqDimlen = f₁.inqDimlen := by
        funext id
        rw [NcFile.inqDimlen, hsame]
        rfl
      refine h.put hput (fun name hne => (hvars name hne).trans (by rw [hext.2]))
        (hsame.trans hext.1) (fun D hD => ?_) ⟨dtype, hdtype, htype⟩ (by rw [hlen, hlens])
        (by rw [hsame]; exact hids)
      obtain ⟨i, hi, hname⟩ := hnames D hD
      exact ⟨w.extents.length, i, hi.trans_le hkle, hname⟩
  · cases hdefine

/-- **One write keeps the file laid out**, when the name is always written with the same type and
extents. -/
theorem Laid.step (h : Laid d.file ws) (hvalid : w.Valid)
    (hsame : ∀ w', lastWrite ws w.name = some w' →
      w'.varMeta.dtype = w.varMeta.dtype ∧ w'.extents = w.extents)
    (hstep : d.write lib w.src w.varMeta = some d') :
    Laid d'.file (ws ++ [w]) ∧ d'.isOpen = d.isOpen := by
  unfold Driver.write at hstep
  split at hstep
  · obtain ⟨⟨g, v⟩, hvar, hput⟩ := Option.bind_eq_some_iff.mp hstep
    obtain ⟨f', hblock, rfl⟩ := Option.map_eq_some_iff.mp hput
    refine ⟨?_, rfl⟩
    cases hlast : lastWrite ws w.name with
    -- the first write of the name defines the variable
    | none =>
      have hnone := h.unwritten _ hlast
      rw [show w.varMeta.name = w.name from rfl, hnone] at hvar
      exact h.define hvalid hlast hvar hblock
    -- a later one finds it with its own type and extents, so that no dimension grows
    | some w' =>
      obtain ⟨v', hv', hstored⟩ := h.written _ _ hlast
      obtain ⟨hdtype, hextents⟩ := hsame w' hlast
      rw [show w.varMeta.name = w.name from rfl, hv'] at hvar
      obtain ⟨rfl, rfl⟩ := Prod.mk.inj (Option.some.inj hvar)
      have hlens := hstored.lens
      rw [hextents] at hlens
      have hdims : f'.dims = d.file.dims := by
        rw [(NcFile.putVara_spec hblock).1, show w.varMeta.shape.extentList = w.extents from rfl,
          ← hlens]
        exact NcFile.foldl_grow_self d.file v'.dimids
      have hlen : f'.inqDimlen = d.file.inqDimlen := by
        funext id
        rw [NcFile.inqDimlen, hdims]
        rfl
      refine h.put hblock (fun _ _ => rfl) (by rw [hdims, List.append_nil]) (by simp) ?_
        (by rw [hlen, hlens]) (by rw [hdims]; exact hstored.ids)
      obtain ⟨dtype, hd, ht⟩ := hstored.type
      exact ⟨dtype, hdtype ▸ hd, ht⟩
  · cases hstep

/-- Each name is always written with the same type and the same extents. -/
def Consistent (ws : List Write) : Prop :=
  ∀ w ∈ ws, ∀ w' ∈ ws, w.name = w'.name →
    w.varMeta.dtype = w'.varMeta.dtype ∧ w.extents = w'.extents

/-- A sequence of writes. -/
def Driver.writeAll (lib : Library) (d : Driver) (ws : List Write) : Option Driver :=
  ws.foldlM (fun d w => d.write lib w.src w.varMeta) d

/-- **A sequence of writes leaves the file laid out.** -/
theorem Laid.writeAll {ws₀ : List Write} (h : Laid d.file ws₀) (hvalid : ∀ w ∈ ws, w.Valid)
    (hcons : Consistent (ws₀ ++ ws)) (hrun : d.writeAll lib ws = some d') :
    Laid d'.file (ws₀ ++ ws) := by
  induction ws generalizing ws₀ d with
  | nil =>
    obtain rfl := Option.some.inj hrun
    rwa [List.append_nil]
  | cons w ws ih =>
    rw [Driver.writeAll, List.foldlM_cons] at hrun
    obtain ⟨d₁, hstep, hrest⟩ := Option.bind_eq_some_iff.mp hrun
    -- the write agrees with the last one of its name
    have hstep' := h.step (hvalid w List.mem_cons_self) (fun w' hw' => by
      obtain ⟨hmem, hname⟩ := mem_of_lastWrite hw'
      exact hcons w' (by simp [hmem]) w (by simp) hname) hstep
    have happend : ws₀ ++ w :: ws = (ws₀ ++ [w]) ++ ws := by simp
    rw [happend] at hcons ⊢
    exact ih hstep'.1 (fun w' hw' => hvalid w' (List.mem_cons_of_mem _ hw')) hcons hrest

/-! ### Reading back -/

/-- The blocks of the cells, in row-major order, are what was written. -/
theorem Stored.flatMap_content (h : Stored f w v) (hvalid : w.Valid) :
    (cells w.extents).flatMap v.content = w.src := by
  calc (cells w.extents).flatMap v.content
      = (cells w.extents).flatMap fun is =>
          (w.src.drop (position w.extents is * w.size)).take w.size :=
        List.flatMap_congr h.content
    _ = ((cells w.extents).map (position w.extents)).flatMap fun k =>
          (w.src.drop (k * w.size)).take w.size := by rw [List.flatMap_map]
    _ = w.src.take (w.extents.prod * w.size) := by
        rw [map_position_cells, flatMap_range_take_drop]
    _ = w.src := by rw [← hvalid.payload, List.take_length]

/-- A cell holds one element. -/
theorem Stored.length_content (h : Stored f w v) (hvalid : w.Valid) {is : List Nat}
    (his : is ∈ cells w.extents) : (v.content is).length = w.size := by
  rw [h.content is his]
  refine length_block ?_
  rw [hvalid.payload]
  exact Nat.mul_le_mul_right _ (position_lt (mem_cells.mp his))

/-- From the origin, with steps one, the block is where its indices say. -/
theorem shift_zeros (is : List Nat) : NcFile.shift (List.replicate is.length 0) is
    (List.replicate is.length 1) = is := by
  induction is with
  | nil => rfl
  | cons i is ih =>
    simp only [NcFile.shift, List.length_cons, List.replicate_succ, List.zipWith_cons_cons,
      Nat.zero_add, Nat.mul_one] at ih ⊢
    rw [ih]

/-- A list of the right length is not padded. -/
theorem padded_exact {n e : Nat} {l : List Nat} (h : l.length = n) : padded n e l = some l := by
  rw [padded, if_pos h.le, h, Nat.sub_self, List.replicate_zero, List.append_nil]

/-- The steps of a read without a box. -/
theorem padded_steps (timeVarying : Bool) {n : Nat} (hn : 1 ≤ n) :
    padded n 1 (leading timeVarying 1 ++ []) = some (List.replicate n 1) := by
  cases timeVarying with
  | false => simp [padded, leading]
  | true =>
    obtain ⟨k, rfl⟩ : ∃ k, n = k + 1 := ⟨n - 1, by omega⟩
    simp [padded, leading, List.replicate_succ]

/-- `nc_get_vara` of everything. -/
theorem Stored.getVars_whole (h : Stored f w v) (hvalid : w.Valid) :
    f.getVars v (List.replicate w.extents.length 0) w.extents
      (List.replicate w.extents.length 1) = some w.src := by
  have hlen : v.dimids.length = w.extents.length := by rw [← h.lens, List.length_map]
  have hlast : (last w.extents).length = w.extents.length := List.length_map _
  have hinside : f.Inside v (List.replicate w.extents.length 0) w.extents
      (List.replicate w.extents.length 1) := by
    refine ⟨by rw [hlen, List.length_replicate], hlen.symm, by rw [hlen, List.length_replicate],
      .inr ?_⟩
    rw [h.lens, ← hlast, shift_zeros]
    exact within_last hvalid.pos
  rw [NcFile.getVars, if_pos hinside, ← h.flatMap_content hvalid]
  refine congrArg some (List.flatMap_congr fun is his => ?_)
  rw [← (mem_cells.mp his).length, shift_zeros]

/-- `nc_get_vara` of one row. -/
theorem Stored.getVars_row (h : Stored f w v) (hvalid : w.Valid) {n t : Nat} {rest : List Nat}
    (hext : w.extents = n :: rest) (ht : t < n) :
    f.getVars v (t :: List.replicate rest.length 0) (1 :: rest)
      (List.replicate (rest.length + 1) 1) =
        some ((cells rest).flatMap fun is => v.content (t :: is)) := by
  have hlen : v.dimids.length = rest.length + 1 := by
    rw [← List.length_map f.inqDimlen, h.lens, hext, List.length_cons]
  have hpos : ∀ e ∈ rest, 0 < e := fun e he => hvalid.pos e (by rw [hext]; simp [he])
  have hlast : (last rest).length = rest.length := List.length_map _
  -- the cells of the row are those of timestep `t`
  have hshift : ∀ i is, is.length = rest.length →
      NcFile.shift (t :: List.replicate rest.length 0) (i :: is)
        (List.replicate (rest.length + 1) 1) = (t + i) :: is := by
    intro i is his
    have hzeros := shift_zeros is
    rw [his] at hzeros
    simp only [NcFile.shift, List.replicate_succ, List.zipWith_cons_cons, Nat.mul_one] at hzeros ⊢
    rw [hzeros]
  -- the row is inside the variable
  have hinside : f.Inside v (t :: List.replicate rest.length 0) (1 :: rest)
      (List.replicate (rest.length + 1) 1) := by
    refine ⟨by simp [hlen], by simp [hlen], by simp [hlen], .inr ?_⟩
    have hrow : last (1 :: rest) = 0 :: last rest := rfl
    rw [h.lens, hext, hrow, hshift 0 _ hlast]
    exact within_cons.mpr ⟨ht, within_last hpos⟩
  have hcells : cells (1 :: rest) = (cells rest).map (0 :: ·) := by simp [cells]
  rw [NcFile.getVars, if_pos hinside, hcells, List.flatMap_map]
  refine congrArg some (List.flatMap_congr fun is his => ?_)
  rw [hshift 0 is (mem_cells.mp his).length]
  rfl

theorem ncTypeToDtype_dtypeToNcType (dtype : Dtype) :
    ncTypeToDtype (dtypeToNcType dtype) = some dtype := by
  cases dtype <;> rfl

/-- What is described of a variable with a time axis in front, and of any other. -/
def Describes (w : Write) (info : VariableInfo) : Prop :=
  info.dtype = w.varMeta.dtype ∧
    ((∃ n rest, w.extents = n :: rest ∧ 1 ≤ rest.length ∧ info.totalTimesteps = n ∧
        info.shape.rank = rest.length ∧ info.shape.extentList = rest) ∨
      (info.totalTimesteps = 1 ∧ info.shape.rank = w.extents.length ∧
        info.shape.extentList = w.extents))

/-- **`describe_variable` of a variable that was written.** -/
theorem Stored.describes {name : List UInt8} (h : Stored d.file w v) (hvalid : w.Valid)
    (hopen : d.isOpen = true ∧ d.isWriteMode = false) (hv : d.file.vars name = some v) :
    ∃ info, d.describeVariable name = some info ∧ Describes w info := by
  obtain ⟨k, -, hkpos, hkle, hk⟩ := hvalid.exists_rank
  obtain ⟨dtype, hdtype, htype⟩ := h.type
  have hlen : v.dimids.length = k := by rw [← List.length_map d.file.inqDimlen, h.lens, hk]
  have hrange : ¬ (k < 1 ∨ maxRank < k) := by omega
  simp only [Driver.describeVariable, if_pos hopen, hv, Option.bind_some, htype,
    ncTypeToDtype_dtypeToNcType, hlen, if_neg hrange, h.lens]
  refine ⟨_, rfl, hdtype.symm, ?_⟩
  -- a leading time axis is taken off the shape, if there is another axis
  by_cases haxis : d.file.isTimeAxis (v.dimids.headD 0) = true ∧ 1 ≤ k - 1
  · left
    obtain ⟨n, rest, hext⟩ := List.exists_cons_of_ne_nil (l := w.extents) (by
      rintro hnil
      rw [hnil] at hk
      simp at hk
      omega)
    have hrest : rest.length = k - 1 := by
      rw [hext, List.length_cons] at hk
      omega
    have hn : 0 < n := hvalid.pos n (by rw [hext]; simp)
    simp only [if_pos haxis]
    refine ⟨n, rest, hext, by omega, ?_, by rw [hrest], ?_⟩
    · simp [hext, hn]
    · rw [extentList_described w.extents 1 (by omega) (by omega) fun _ => 0, hext]
      rfl
  · right
    simp only [if_neg haxis]
    refine ⟨by simp, by rw [hk]; rfl, ?_⟩
    exact extentList_described w.extents 0 (by omega) (by omega) fun _ => 0

variable {m : VarMeta} {capacity : Nat}

/-- `read` of a row of a variable with a time axis. -/
theorem Stored.read_row (h : Stored d.file w v) (hvalid : w.Valid)
    (hopen : d.isOpen = true ∧ d.isWriteMode = false) (hv : d.file.vars m.name = some v)
    {n t : Nat} {rest : List Nat} (hext : w.extents = n :: rest) (ht : t < n)
    (hdtype : m.dtype = w.varMeta.dtype) (hrank : m.shape.rank = rest.length)
    (hshape : m.shape.extentList = rest) (hcap : rest.prod * w.size ≤ capacity) :
    d.read capacity m t none =
      some ((cells rest).flatMap fun is => v.content (t :: is), rest.prod * w.size) := by
  have hlen : v.dimids.length = rest.length + 1 := by
    rw [← List.length_map d.file.inqDimlen, h.lens, hext, List.length_cons]
  -- the array is in memory, so neither the timestep nor the byte count wraps
  have hbytes : n * (rest.prod * w.size) < 2 ^ 64 := by
    have hmemory := hvalid.memory
    rwa [hvalid.payload, hext, List.prod_cons, Nat.mul_assoc] at hmemory
  have hsize : 0 < w.size := Nat.pos_of_ne_zero hvalid.dtype
  have hprod : 0 < rest.prod := List.prod_pos_iff_forall_pos_nat.mpr fun e he =>
    hvalid.pos e (by rw [hext]; simp [he])
  have hn : n < 2 ^ 64 := (Nat.le_mul_of_pos_right n (Nat.mul_pos hprod hsize)).trans_lt hbytes
  have hrow : rest.prod * w.size < 2 ^ 64 :=
    (Nat.le_mul_of_pos_left _ (by omega)).trans_lt hbytes
  have htime : ((t : Int) % 2 ^ 64).toNat = t := by omega
  have hvarying : decide (((rest.length + 1 : Nat) : Int) = m.shape.rank + 1) = true := by
    rw [hrank]
    simp
  have hstart : padded (rest.length + 1) 0
      (leading true t ++ m.shape.extentList.map fun _ => 0) =
        some (t :: List.replicate rest.length 0) := by
    rw [hshape, List.map_const']
    exact padded_exact (by simp [leading])
  have hcount : padded (rest.length + 1) 0 (leading true 1 ++ m.shape.extentList) =
      some (1 :: rest) := by
    rw [hshape]
    exact padded_exact (by simp [leading])
  have hslab : hyperslab v.dimids.length m.shape t none = some
      (t :: List.replicate rest.length 0, 1 :: rest, List.replicate (rest.length + 1) 1) := by
    simp only [hyperslab, selection, selectedExtents_none, htime, hlen, hvarying, hstart, hcount,
      padded_steps true (Nat.le_add_left 1 _), Option.bind_some, Option.map_some]
  have htotal : totalBytes v.dimids.length m (1 :: rest) = rest.prod * w.size := by
    have htake : (List.drop (leading true 1).length (1 :: rest)).take m.shape.rank.toNat =
        rest := by
      rw [hrank]
      simp [leading]
    simp only [totalBytes, hlen, hvarying]
    rw [htake, hdtype]
    exact u64_prod_mul hrow
  rw [read_eq hopen hv, hslab, Option.bind_some]
  simp only [htotal]
  rw [if_neg, h.getVars_row hvalid hext ht, Option.map_some]
  rw [hdtype]
  exact not_or.mpr ⟨hvalid.dtype, by omega⟩

/-- `read` of a variable without one. -/
theorem Stored.read_whole (h : Stored d.file w v) (hvalid : w.Valid)
    (hopen : d.isOpen = true ∧ d.isWriteMode = false) (hv : d.file.vars m.name = some v)
    (hdtype : m.dtype = w.varMeta.dtype) (hrank : m.shape.rank = w.extents.length)
    (hshape : m.shape.extentList = w.extents) (hcap : w.extents.prod * w.size ≤ capacity)
    (t : Int) : d.read capacity m t none = some (w.src, w.extents.prod * w.size) := by
  obtain ⟨k, -, hkpos, -, hk⟩ := hvalid.exists_rank
  have hlen : v.dimids.length = w.extents.length := by rw [← h.lens, List.length_map]
  have hvarying : decide ((w.extents.length : Int) = m.shape.rank + 1) = false := by
    rw [hrank]
    simp
  have hstart : padded w.extents.length 0
      (leading false (t % 2 ^ 64).toNat ++ m.shape.extentList.map fun _ => 0) =
        some (List.replicate w.extents.length 0) := by
    rw [hshape, List.map_const']
    exact padded_exact (by simp [leading])
  have hcount : padded w.extents.length 0 (leading false 1 ++ m.shape.extentList) =
      some w.extents := by
    rw [hshape]
    exact padded_exact (by simp [leading])
  -- the hyperslab is the whole variable, whatever the timestep
  have hslab : hyperslab v.dimids.length m.shape t none = some
      (List.replicate w.extents.length 0, w.extents, List.replicate w.extents.length 1) := by
    simp only [hyperslab, selection, selectedExtents_none, hlen, hvarying, hstart, hcount,
      padded_steps false (by omega : 1 ≤ w.extents.length), Option.bind_some, Option.map_some]
  -- its byte count does not wrap around, for the source was in memory
  have htotal : totalBytes v.dimids.length m w.extents = w.extents.prod * w.size := by
    have htake : (List.drop (leading false 1).length w.extents).take m.shape.rank.toNat =
        w.extents := by
      rw [hrank]
      simp [leading]
    simp only [totalBytes, hlen, hvarying]
    rw [htake, hdtype]
    refine u64_prod_mul ?_
    have hmemory := hvalid.memory
    rwa [hvalid.payload] at hmemory
  rw [read_eq hopen hv, hslab, Option.bind_some]
  simp only [htotal]
  rw [if_neg, h.getVars_whole hvalid, Option.map_some]
  rw [hdtype]
  exact not_or.mpr ⟨hvalid.dtype, by omega⟩

/-! ### The round trip -/

/-- The timesteps `0 .. n - 1` in order, one after the other: of each the `used_bytes`. -/
def Driver.readAll (d : Driver) (capacity : Nat) (m : VarMeta) (n : Nat) : Option (List UInt8) :=
  ((List.range n).mapM fun t => d.read capacity m (t : Nat) none).map fun parts =>
    parts.flatMap fun part => part.1.take part.2

/-- All timesteps, one after the other. -/
theorem Driver.readAll_eq {n : Nat} {c : Nat → List UInt8}
    (h : ∀ t < n, d.read capacity m t none = some (c t, (c t).length)) :
    d.readAll capacity m n = some ((List.range n).flatMap c) := by
  -- induction on the timesteps that are still to be read
  have hmap : ∀ l : List Nat, (∀ t ∈ l, t < n) →
      l.mapM (fun t => d.read capacity m (t : Nat) none) =
        some (l.map fun t => (c t, (c t).length)) := by
    intro l
    induction l with
    | nil => exact fun _ => rfl
    | cons t l ih =>
      intro hl
      rw [List.mapM_cons, h t (hl t List.mem_cons_self),
        ih fun t' ht' => hl t' (List.mem_cons_of_mem _ ht')]
      rfl
  rw [Driver.readAll, hmap _ fun t => List.mem_range.mp, Option.map_some, List.flatMap_map]
  refine congrArg some (List.flatMap_congr fun t _ => ?_)
  exact List.take_length

/-- **The rows of a variable with a time axis**, one after the other, are what was written. -/
theorem Stored.readAll_rows (h : Stored d.file w v) (hvalid : w.Valid)
    (hopen : d.isOpen = true ∧ d.isWriteMode = false) (hv : d.file.vars m.name = some v)
    {n : Nat} {rest : List Nat} (hext : w.extents = n :: rest)
    (hdtype : m.dtype = w.varMeta.dtype) (hrank : m.shape.rank = rest.length)
    (hshape : m.shape.extentList = rest) (hcap : rest.prod * w.size ≤ capacity) :
    d.readAll capacity m n = some w.src := by
  rw [Driver.readAll_eq (c := fun t => (cells rest).flatMap fun is => v.content (t :: is))]
  -- the rows one after the other are the cells of the variable in order
  · rw [← h.flatMap_content hvalid, hext, cells, List.flatMap_assoc]
    refine congrArg some (List.flatMap_congr fun t _ => ?_)
    rw [List.flatMap_map]
  · intro t ht
    have hcell : ∀ is ∈ cells rest, (v.content (t :: is)).length = w.size := by
      intro is his
      refine h.length_content hvalid ?_
      rw [hext]
      exact mem_cells.mpr (within_cons.mpr ⟨ht, mem_cells.mp his⟩)
    -- every row has as many bytes as its elements need
    have hlength : ((cells rest).flatMap fun is => v.content (t :: is)).length =
        rest.prod * w.size := by
      rw [List.length_flatMap, List.map_congr_left hcell, List.map_const', List.sum_replicate,
        length_cells]
      rfl
    rw [h.read_row hvalid hopen hv hext ht hdtype hrank hshape hcap, hlength]

/-- A name that was written has a last write. -/
theorem exists_lastWrite (hw : w ∈ ws) : ∃ last, lastWrite ws w.name = some last := by
  refine Option.isSome_iff_exists.mp ?_
  rw [lastWrite, List.find?_isSome]
  exact ⟨w, List.mem_reverse.mpr hw, by simp⟩

/-- **What is written is read back.** After a sequence of writes in which every name keeps its type
and its shape, `close` and `open_read`, every name is found, and its timesteps are the bytes of the
last write to it. -/
theorem round_trip {d₀ d₁ : Driver}
    {attributes : List UInt8 → Option (List (List UInt8 × AttrValue))}
    (hvalid : ∀ w ∈ ws, w.Valid) (hcons : Consistent ws)
    (hopen : d₀.openWrite attributes = some d) (hrun : d.writeAll lib ws = some d₁) (hw : w ∈ ws) :
    ∃ d₂ last info, ∃ T : Nat, d₁.close.openRead = some d₂ ∧ lastWrite ws w.name = some last ∧
      d₂.describeVariable w.name = some info ∧ info.totalTimesteps = T ∧
      ∀ capacity m, info.shape.extentList.prod * elementSize info.dtype ≤ capacity →
        m.name = w.name → m.dtype = info.dtype → m.shape = info.shape →
        d₂.readAll capacity m T = some last.src := by
  have hempty : d.file = .empty := by
    unfold Driver.openWrite at hopen
    split at hopen
    · cases hopen
    · obtain rfl := Option.some.inj hopen
      rfl
  -- the file after all writes holds the last one of every name
  have hlaid : Laid d₁.file ([] ++ ws) :=
    Laid.writeAll (by rw [hempty]; exact .empty) hvalid hcons hrun
  obtain ⟨last, hlast⟩ := exists_lastWrite hw
  have hlastValid := hvalid last (mem_of_lastWrite hlast).1
  obtain ⟨v, hv, hstored⟩ := hlaid.written _ _ hlast
  obtain ⟨d₂, hread, hmode, hfile⟩ : ∃ d₂, d₁.close.openRead = some d₂ ∧
      (d₂.isOpen = true ∧ d₂.isWriteMode = false) ∧ d₂.file = d₁.file := ⟨_, rfl, ⟨rfl, rfl⟩, rfl⟩
  rw [← hfile] at hv hstored
  obtain ⟨info, hinfo, hdtype, hcases⟩ := hstored.describes hlastValid hmode hv
  refine ⟨d₂, last, info, ?_⟩
  -- with a time axis, timestep by timestep; without one, at once
  obtain ⟨n, rest, hext, -, htotal, hrank, hextents⟩ | ⟨htotal, hrank, hextents⟩ := hcases
  · refine ⟨n, hread, hlast, hinfo, htotal, fun capacity m hcap hname hmtype hmshape => ?_⟩
    rw [hextents, hdtype] at hcap
    exact hstored.readAll_rows hlastValid hmode (by rw [hname]; exact hv) hext
      (hmtype.trans hdtype) (by rw [hmshape, hrank]) (by rw [hmshape, hextents]) hcap
  · refine ⟨1, hread, hlast, hinfo, htotal, fun capacity m hcap hname hmtype hmshape => ?_⟩
    rw [hextents, hdtype] at hcap
    rw [Driver.readAll_eq (c := fun _ => last.src)]
    · exact congrArg some (List.append_nil _)
    · intro t _
      rw [hlastValid.payload]
      exact hstored.read_whole hlastValid hmode (by rw [hname]; exact hv)
        (hmtype.trans hdtype) (by rw [hmshape, hrank]) (by rw [hmshape, hextents]) hcap t

/-- A library that allows everything. -/
def permissive : Library := ⟨fun _ _ => true, fun type => List.replicate type.size 0⟩

/-- The times twice, and between them a square array, which takes both its dimensions from them. -/
def records : List Write :=
  let line : Shape := ⟨1, fun _ => 2, fun _ => 0⟩
  let square : Shape := ⟨2, fun _ => 2, fun _ => 0⟩
  [⟨[1, 2], { datasetId := 1, name := text "time", dtype := some .u8, shape := line }⟩,
    ⟨[3, 4, 5, 6], { datasetId := 1, name := text "u", dtype := some .u8, shape := square }⟩,
    ⟨[7, 8], { datasetId := 1, name := text "time", dtype := some .u8, shape := line }⟩]

/-- The square array has the record dimension twice, and its timesteps make it whole again. -/
theorem round_trip_of_records :
    ∃ d d₁ d₂ info, ∃ T : Nat,
      (Driver.mk false false (fun _ => none) .empty).openWrite (fun _ => none) = some d ∧
      d.writeAll permissive records = some d₁ ∧ d₁.close.openRead = some d₂ ∧
      d₂.describeVariable (text "u") = some info ∧ info.totalTimesteps = T ∧
      ∀ capacity m, info.shape.extentList.prod * elementSize info.dtype ≤ capacity →
        m.name = text "u" → m.dtype = info.dtype → m.shape = info.shape →
        d₂.readAll capacity m T = some [3, 4, 5, 6] := by
  have hvalid : ∀ w ∈ records, w.Valid := by
    intro w hw
    simp only [records, List.mem_cons, List.not_mem_nil, or_false] at hw
    rcases hw with rfl | rfl | rfl <;> exact ⟨by decide, by decide, by decide, by decide⟩
  -- every name keeps type and extents
  have hcons : Consistent records := by
    intro w hw w' hw' hname
    simp only [records, List.mem_cons, List.not_mem_nil, or_false] at hw hw'
    rcases hw with rfl | rfl | rfl <;> rcases hw' with rfl | rfl | rfl <;>
      first | exact ⟨rfl, rfl⟩ | exact absurd hname (by decide)
  have hopen : (Driver.mk false false (fun _ => none) .empty).openWrite (fun _ => none) =
      some (.mk true true (fun _ => none) .empty) := rfl
  -- the permissive library takes all writes
  have hsome : ((Driver.mk true true (fun _ => none) .empty).writeAll permissive records).isSome :=
    by decide +kernel
  obtain ⟨d₁, hrun⟩ := Option.isSome_iff_exists.mp hsome
  obtain ⟨d₂, last, info, T, hread, hlast, hinfo, htotal, hall⟩ :=
    round_trip hvalid hcons hopen hrun (List.mem_cons_of_mem _ List.mem_cons_self)
  obtain rfl := Option.some.inj hlast
  exact ⟨_, d₁, d₂, info, T, hopen, hrun, hread, hinfo, htotal, hall⟩

end Amio.NetCdf
