import Amio.Drivers.NetCdfRoundTrip

/-!
# The time axis of a netCDF file

`describe_variable` decides whether the leading dimension of a variable is its time axis: by the
record dimensions of the file, by names, by attributes. `read` asks none of this. It compares the
rank of the variable with that of the shape it is given, which is the described one, and takes the
timestep for the leading index if one is missing. This file puts both functions in terms of the
lengths of the dimensions (`Described`, `hyperslab_described`) and compares them.

They agree on every file but for two inputs (`reads_as_described_iff`). A time axis without records
is reported with one timestep, and reading it asks for a record that is not there. And a box that
`validate_bbox` lets pass because its last index wraps around is not inside the variable.

The length of a dimension is an `std::int64_t`.
-/

namespace Amio.NetCdf

open RowMajor

/-! ### What is described -/

namespace NcFile

variable (f : NcFile) (v : NcVar)

/-- The lengths of the dimensions of a variable. -/
def lens : List Nat := v.dimids.map f.inqDimlen

/-- Whether `describe_variable` drops the leading dimension: it is the time axis, and not all there
is. -/
def dropsLeading : Bool := f.isTimeAxis (v.dimids.headD 0) && decide (2 ≤ v.dimids.length)

end NcFile

/-- What `describe_variable` reports of a variable. -/
structure Described (d : Driver) (name : List UInt8) (v : NcVar) (info : VariableInfo) : Prop where
  isOpen : d.isOpen = true ∧ d.isWriteMode = false
  isVar : d.file.vars name = some v
  dtype : elementSize info.dtype ≠ 0
  rank_pos : 1 ≤ info.shape.rank
  rank_le : info.shape.rank ≤ maxRank
  rank : info.shape.rank + (leading (d.file.dropsLeading v) 1).length = v.dimids.length
  extents : info.shape.extentList =
    (d.file.lens v).drop (leading (d.file.dropsLeading v) 1).length
  entry : ∀ k, ∃ e ∈ 0 :: d.file.lens v, info.shape.extents k = (e : Nat)
  -- at least one timestep is reported
  total : info.totalTimesteps =
    if d.file.dropsLeading v = true ∧ 0 < (d.file.lens v).headD 0 then
      ((d.file.lens v).headD 0 : Int)
    else 1

/-- No type is of size zero. -/
theorem elementSize_some (dtype : Dtype) : elementSize (some dtype) ≠ 0 := by
  cases dtype <;> decide

@[simp] theorem length_leading (b : Bool) (e : Nat) :
    (leading b e).length = if b then 1 else 0 := by
  cases b <;> rfl

/-- A leading axis of length one. -/
theorem prod_leading (b : Bool) (l : List Nat) : (leading b 1 ++ l).prod = l.prod := by
  cases b <;> simp [leading]

/-- `shape_start`. -/
theorem shapeStart_eq (f : NcFile) (v : NcVar) :
    (if f.isTimeAxis (v.dimids.headD 0) = true ∧ 1 ≤ v.dimids.length - 1 then 1 else 0) =
      (leading (f.dropsLeading v) 1).length := by
  have hiff : f.dropsLeading v = true ↔
      f.isTimeAxis (v.dimids.headD 0) = true ∧ 1 ≤ v.dimids.length - 1 := by
    rw [NcFile.dropsLeading, Bool.and_eq_true, decide_eq_true_eq]
    exact and_congr_right fun _ => by omega
  simp only [length_leading, hiff]

/-- **`describe_variable`**, in terms of the dimensions of the variable. -/
theorem described {d : Driver} {name : List UInt8} {info : VariableInfo}
    (h : d.describeVariable name = some info) : ∃ v, Described d name v info := by
  unfold Driver.describeVariable at h
  split at h
  · next hopen =>
    obtain ⟨v, hv, h⟩ := Option.bind_eq_some_iff.mp h
    obtain ⟨dtype, -, h⟩ := Option.bind_eq_some_iff.mp h
    simp only [shapeStart_eq] at h
    split at h
    · cases h
    · next hrange =>
      obtain rfl := Option.some.inj h
      have hlen : (d.file.lens v).length = v.dimids.length := List.length_map _
      -- a dropped dimension leaves another one
      have hstart : (leading (d.file.dropsLeading v) 1).length + 1 ≤ v.dimids.length := by
        rw [length_leading]
        split
        · next hdrop =>
          rw [NcFile.dropsLeading, Bool.and_eq_true, decide_eq_true_eq] at hdrop
          exact hdrop.2
        · omega
      refine ⟨v, hopen, hv, elementSize_some dtype, ?_, ?_, ?_, ?_, fun k => ?_, ?_⟩
      · show (1 : Int) ≤ ((_ : Nat) : Int)
        omega
      · show ((_ : Nat) : Int) ≤ maxRank
        omega
      · show ((_ : Nat) : Int) + _ = _
        omega
      · exact extentList_described (d.file.lens v) _ (by omega) (by omega) fun _ => 0
      · refine ⟨_, ?_, rfl⟩
        rw [← NcFile.lens, List.getD_getElem?]
        split
        · exact List.mem_cons_of_mem _ (List.getElem_mem _)
        · exact List.mem_cons_self
      · show (if (0 : Int) < _ then _ else _) = _
        cases d.file.dropsLeading v with
        | false => simp [leading]
        | true => simp [leading, NcFile.lens]
  · cases h

/-! ### What is read -/

/-- The steps of a selection, with those that are not set. -/
def selectionSteps (shape : Shape) : Option Bbox → List Nat
  | some b => (dims b.rank).map fun k => (b.strides k).toNat
  | none => shape.extentList.map fun _ => 1

section Slab

variable {d : Driver} {name : List UInt8} {v : NcVar} {info : VariableInfo} {bbox : Option Bbox}
  {t : Int}

/-- A box that is accepted has an entry for each dimension of the shape, and so has the shape. -/
theorem length_selection (hok : validateBbox bbox info.shape = .ok) :
    (selection info.shape bbox).1.length = (selection info.shape bbox).2.1.length ∧
      (selection info.shape bbox).2.1.length = info.shape.extentList.length ∧
      (selectionSteps info.shape bbox).length = info.shape.extentList.length := by
  cases bbox with
  | none => simp [selection, selectionSteps]
  | some b =>
    obtain ⟨hrank, -⟩ := validateBbox_ok_iff.mp hok
    simp [selection, selectionSteps, Bbox.extentList, Shape.extentList, hrank]

/-- Steps that are not set are one. -/
theorem padded_selectionSteps (hok : validateBbox bbox info.shape = .ok) (dropped : Bool) :
    padded ((leading dropped 1).length + info.shape.extentList.length) 1
        (leading dropped 1 ++ (selection info.shape bbox).2.2) =
      some (leading dropped 1 ++ selectionSteps info.shape bbox) := by
  have hlen := (length_selection hok).2.2
  cases bbox with
  | none =>
    -- without a box there are no steps, and ones are filled in
    have hroom : (leading dropped 1 ++ (selection info.shape none).2.2).length ≤
        (leading dropped 1).length + info.shape.extentList.length := by
      simp [selection]
    rw [padded, if_pos hroom]
    simp [selection, selectionSteps]
  | some b =>
    obtain ⟨-, hb⟩ := validateBbox_ok_iff.mp hok
    -- the strides of an accepted box are not below one
    have hsteps : (selection info.shape (some b)).2.2 = selectionSteps info.shape (some b) := by
      refine List.map_congr_left fun k hk => ?_
      obtain ⟨hstride, -⟩ := hb k hk
      split
      · rfl
      · omega
    rw [hsteps]
    exact padded_exact (by rw [List.length_append, hlen])

/-- The elements selected are inside the shape when the last of them is. -/
theorem within_selection_iff (hok : validateBbox bbox info.shape = .ok)
    (hpos : (selection info.shape bbox).2.1.prod ≠ 0) :
    Within info.shape.extentList
        (NcFile.shift (selection info.shape bbox).1 (last (selection info.shape bbox).2.1)
          (selectionSteps info.shape bbox)) ↔
      ∀ b ∈ bbox, b.Inside info.shape := by
  cases bbox with
  | none =>
    have hext : ∀ e ∈ info.shape.extentList, 0 < e :=
      List.prod_pos_iff_forall_pos_nat.mp (Nat.pos_of_ne_zero hpos)
    have hshift : NcFile.shift (info.shape.extentList.map fun _ => 0)
        (last info.shape.extentList) (info.shape.extentList.map fun _ => 1) =
          last info.shape.extentList := by
      have hzeros := shift_zeros (last info.shape.extentList)
      rw [last, List.length_map] at hzeros
      rwa [List.map_const', List.map_const', last]
    refine iff_of_true ?_ (by simp)
    show Within _ (NcFile.shift (info.shape.extentList.map fun _ => 0) _ _)
    rw [selectionSteps, selection, selectedExtents_none, hshift]
    exact within_last hext
  | some b =>
    obtain ⟨hrank, hb⟩ := validateBbox_ok_iff.mp hok
    simp only [Option.mem_def, Option.some.injEq, forall_eq', Bbox.inside_iff, hrank, true_and]
    -- dimension by dimension, both sides speak of the last index
    have hshift : NcFile.shift (selection info.shape (some b)).1
        (last (selection info.shape (some b)).2.1) (selectionSteps info.shape (some b)) =
          (dims b.rank).map fun k => (b.last k).toNat := by
      simp only [selection, selectionSteps, selectedExtents_some, NcFile.shift, last,
        Bbox.extentList, List.map_map, List.zipWith_map, List.zipWith_self, List.map_inj_left,
        Function.comp_apply]
      intro k hk
      obtain ⟨hstride, hoffset, hext, -⟩ := hb k hk
      have hlast := last_nonneg hstride hoffset hext
      have hsteps : ((b.extents k).toNat - 1 : Nat) = (b.extents k - 1 : Int) := by omega
      apply Int.ofNat_inj.mp
      rw [Int.toNat_of_nonneg hlast, Bbox.last]
      push_cast [hsteps, Int.toNat_of_nonneg hoffset]
      rw [Int.toNat_of_nonneg (by omega : 0 ≤ b.strides k)]
    rw [hshift, Shape.extentList, ← hrank, Within, List.forall₂_map_left_iff,
      List.forall₂_map_right_iff, List.forall₂_same]
    refine forall₂_congr fun k hk => ?_
    obtain ⟨hstride, hoffset, hext, -⟩ := hb k hk
    have hlast := last_nonneg hstride hoffset hext
    omega

/-- The lengths of the axes fit. -/
theorem lens_lt {f : NcFile} (hlens : ∀ D ∈ f.dims, D.len < 2 ^ 63) (v : NcVar) {e : Nat}
    (he : e ∈ 0 :: f.lens v) : e < 2 ^ 63 := by
  rcases List.mem_cons.mp he with rfl | hmem
  · exact Nat.two_pow_pos 63
  · obtain ⟨id, -, rfl⟩ := List.mem_map.mp hmem
    rw [NcFile.inqDimlen]
    cases hD : f.dims[id]? with
    | none => exact Nat.two_pow_pos 63
    | some D => exact hlens D (List.mem_of_getElem? hD)

namespace Described

/-- The axes of the description are those of the variable, less the leading one. -/
theorem length_extents (h : Described d name v info) :
    (leading (d.file.dropsLeading v) 1).length + info.shape.extentList.length =
      v.dimids.length := by
  have hlen : (d.file.lens v).length = v.dimids.length := List.length_map _
  have hrank := h.rank
  have hpos := h.rank_pos
  rw [h.extents, List.length_drop]
  omega

/-- `is_time_varying` of `read` is the decision of `describe_variable`. -/
theorem timeVarying (h : Described d name v info) :
    decide ((v.dimids.length : Int) = info.shape.rank + 1) = d.file.dropsLeading v := by
  have hrank := h.rank
  rw [length_leading] at hrank
  cases hdrop : d.file.dropsLeading v with
  | false =>
    rw [hdrop, if_neg Bool.false_ne_true] at hrank
    exact decide_eq_false (by omega)
  | true =>
    rw [hdrop, if_pos rfl] at hrank
    exact decide_eq_true (by omega)

/-- **The hyperslab.** The selection, behind the timestep if the leading dimension was dropped. -/
theorem hyperslab_eq (h : Described d name v info) (hok : validateBbox bbox info.shape = .ok)
    (t : Int) :
    hyperslab v.dimids.length info.shape t bbox = some
      (leading (d.file.dropsLeading v) (t % 2 ^ 64).toNat ++ (selection info.shape bbox).1,
        leading (d.file.dropsLeading v) 1 ++ (selection info.shape bbox).2.1,
        leading (d.file.dropsLeading v) 1 ++ selectionSteps info.shape bbox) := by
  obtain ⟨hoffsets, hextents, -⟩ := length_selection hok
  have hlen := h.length_extents
  have hstart : padded v.dimids.length 0
      (leading (d.file.dropsLeading v) (t % 2 ^ 64).toNat ++ (selection info.shape bbox).1) =
        some _ :=
    padded_exact (by rw [List.length_append, hoffsets, hextents, ← hlen, length_leading,
      length_leading])
  have hcount : padded v.dimids.length 0
      (leading (d.file.dropsLeading v) 1 ++ (selection info.shape bbox).2.1) = some _ :=
    padded_exact (by rw [List.length_append, hextents, ← hlen])
  have hsteps := padded_selectionSteps hok (d.file.dropsLeading v)
  rw [hlen] at hsteps
  simp only [hyperslab, h.timeVarying, hstart, hcount, hsteps, Option.bind_some, Option.map_some]

/-- The hyperslab of a timestep that is one. -/
theorem hyperslab_described (h : Described d name v info)
    (hok : validateBbox bbox info.shape = .ok) (ht : 0 ≤ t ∧ t < 2 ^ 64) :
    hyperslab v.dimids.length info.shape t bbox = some
      (leading (d.file.dropsLeading v) t.toNat ++ (selection info.shape bbox).1,
        leading (d.file.dropsLeading v) 1 ++ (selection info.shape bbox).2.1,
        leading (d.file.dropsLeading v) 1 ++ selectionSteps info.shape bbox) := by
  rw [h.hyperslab_eq hok, Int.emod_eq_of_lt ht.1 ht.2]

/-- `total_bytes` of a selection. -/
theorem totalBytes_eq (h : Described d name v info) (hok : validateBbox bbox info.shape = .ok)
    {m : VarMeta} (hshape : m.shape = info.shape) (hdtype : m.dtype = info.dtype) :
    totalBytes v.dimids.length m
        (leading (d.file.dropsLeading v) 1 ++ (selection info.shape bbox).2.1) =
      u64 ((selection info.shape bbox).2.1.prod * elementSize info.dtype) := by
  have hlen := (length_selection hok).2.1
  have hrank := h.rank
  have hsum := h.length_extents
  have htake : (selection info.shape bbox).2.1.take info.shape.rank.toNat =
      (selection info.shape bbox).2.1 := List.take_of_length_le (by omega)
  rw [totalBytes, hshape, hdtype, h.timeVarying]
  simp only [List.drop_left, htake, u64_foldl_mul]

/-- `read` of what was described: the hyperslab of the selection, if the buffer takes it. -/
theorem read_eq (h : Described d name v info) (hok : validateBbox bbox info.shape = .ok)
    {m : VarMeta} (hname : m.name = name) (hshape : m.shape = info.shape)
    (hdtype : m.dtype = info.dtype) (t : Int) (capacity : Nat) :
    d.read capacity m t bbox =
      if capacity < u64 ((selection info.shape bbox).2.1.prod * elementSize info.dtype) then none
      else (d.file.getVars v (leading (d.file.dropsLeading v) (t % 2 ^ 64).toNat ++
            (selection info.shape bbox).1)
          (leading (d.file.dropsLeading v) 1 ++ (selection info.shape bbox).2.1)
          (leading (d.file.dropsLeading v) 1 ++ selectionSteps info.shape bbox)).map
        fun out => (out, u64 ((selection info.shape bbox).2.1.prod * elementSize info.dtype)) := by
  have hv : d.file.vars m.name = some v := hname ▸ h.isVar
  rw [NetCdf.read_eq h.isOpen hv, hshape, h.hyperslab_eq hok, Option.bind_some]
  simp only [h.totalBytes_eq hok hshape hdtype, hdtype, h.dtype, false_or]

/-- The lengths of the dimensions: what was dropped, and what is described. -/
theorem lens_eq (h : Described d name v info) :
    d.file.lens v = leading (d.file.dropsLeading v) ((d.file.lens v).headD 0) ++
      info.shape.extentList := by
  have hlen : (d.file.lens v).length = v.dimids.length := List.length_map _
  have hsum := h.length_extents
  have hext := h.extents
  cases hdrop : d.file.dropsLeading v with
  | false => simpa [hdrop, leading] using hext.symm
  | true =>
    rw [hdrop] at hsum hext
    -- a leading axis was dropped, so that there is one
    obtain ⟨e, es, hcons⟩ : ∃ e es, d.file.lens v = e :: es := by
      refine List.exists_cons_of_length_pos ?_
      rw [length_leading, if_pos rfl] at hsum
      omega
    rw [hcons] at hext ⊢
    rw [hext]
    rfl

/-- The shape of a description fits into 64 bits. -/
theorem isMachine (h : Described d name v info) (hlens : ∀ D ∈ d.file.dims, D.len < 2 ^ 63) :
    info.shape.IsMachine := by
  intro k
  obtain ⟨e, he, hk⟩ := h.entry k
  have hlt := lens_lt hlens v he
  exact ⟨by omega, by omega⟩

theorem total_lt (h : Described d name v info) (hlens : ∀ D ∈ d.file.dims, D.len < 2 ^ 63) :
    info.totalTimesteps < 2 ^ 63 := by
  have hhead : (d.file.lens v).headD 0 ∈ 0 :: d.file.lens v := by
    cases d.file.lens v <;> simp
  have hlt := lens_lt hlens v hhead
  rw [h.total]
  split <;> omega

/-- The hyperslab of a timestep is inside the variable when the timestep is there and the selection
is inside the shape, or when nothing is selected. -/
theorem inside_iff (h : Described d name v info) (hok : validateBbox bbox info.shape = .ok) :
    d.file.Inside v (leading (d.file.dropsLeading v) t.toNat ++ (selection info.shape bbox).1)
        (leading (d.file.dropsLeading v) 1 ++ (selection info.shape bbox).2.1)
        (leading (d.file.dropsLeading v) 1 ++ selectionSteps info.shape bbox) ↔
      (selection info.shape bbox).2.1.prod = 0 ∨
        (d.file.dropsLeading v = true → t.toNat < (d.file.lens v).headD 0) ∧
          ∀ b ∈ bbox, b.Inside info.shape := by
  obtain ⟨hoffsets, hextents, hsteps⟩ := length_selection hok
  have hlen := h.length_extents
  have hwithin : Within (d.file.lens v)
      (NcFile.shift (leading (d.file.dropsLeading v) t.toNat ++ (selection info.shape bbox).1)
        (last (leading (d.file.dropsLeading v) 1 ++ (selection info.shape bbox).2.1))
        (leading (d.file.dropsLeading v) 1 ++ selectionSteps info.shape bbox)) ↔
      (d.file.dropsLeading v = true → t.toNat < (d.file.lens v).headD 0) ∧
        Within info.shape.extentList (NcFile.shift (selection info.shape bbox).1
          (last (selection info.shape bbox).2.1) (selectionSteps info.shape bbox)) := by
    have hlens := h.lens_eq
    cases hdrop : d.file.dropsLeading v with
    | false =>
      rw [hdrop] at hlens
      rw [hlens]
      simp [leading]
    | true =>
      -- the timestep is the first index of the hyperslab, and the only one there
      rw [hdrop] at hlens
      rw [hlens]
      show Within (_ :: info.shape.extentList) (t.toNat :: NcFile.shift _ (last _) _) ↔ _
      rw [within_cons]
      exact and_congr_left' ⟨fun hlt _ => hlt, fun hlt => hlt rfl⟩
  have hlengths : (leading (d.file.dropsLeading v) t.toNat ++
        (selection info.shape bbox).1).length = v.dimids.length ∧
      (leading (d.file.dropsLeading v) 1 ++ (selection info.shape bbox).2.1).length =
        v.dimids.length ∧
      (leading (d.file.dropsLeading v) 1 ++ selectionSteps info.shape bbox).length =
        v.dimids.length := by
    simp only [List.length_append, length_leading] at hlen ⊢
    omega
  rw [NcFile.Inside, prod_leading, ← NcFile.lens, hwithin]
  by_cases hzero : (selection info.shape bbox).2.1.prod = 0
  · simp only [hzero, hlengths, true_or, and_self]
  · rw [within_selection_iff hok hzero]
    simp only [hlengths, true_and]

end Described

/-! ### The property -/

/-- The hyperslab of timestep `t`: it is what `read` asks the library for, it has the timestep for
its leading index if and only if the leading dimension was dropped, it lies inside the variable, and
it has as many elements as are selected. -/
structure SlabAgrees (d : Driver) (name : List UInt8) (v : NcVar) (info : VariableInfo) (t : Int)
    (bbox : Option Bbox) (start count steps : List Nat) : Prop where
  made : hyperslab v.dimids.length info.shape t bbox = some (start, count, steps)
  read : ∀ capacity m, m.name = name → m.shape = info.shape → m.dtype = info.dtype →
    d.read capacity m t bbox =
      if capacity < u64 (count.prod * elementSize info.dtype) then none
      else (d.file.getVars v start count steps).map fun out =>
        (out, u64 (count.prod * elementSize info.dtype))
  takes : start = t.toNat :: (selection info.shape bbox).1 ∧
    count = 1 :: (selection info.shape bbox).2.1 ↔ d.file.dropsLeading v = true
  inside : d.file.Inside v start count steps
  elements : count.prod = (selection info.shape bbox).2.1.prod

/-- `read` agrees with `describe_variable` for every timestep that is reported, and the reads of all
timesteps without a box take every element of the variable once. -/
structure ReadsAsDescribed (d : Driver) (name : List UInt8) (v : NcVar) (info : VariableInfo)
    (bbox : Option Bbox) : Prop where
  described : Described d name v info
  slabs : ∀ t, 0 ≤ t → t < info.totalTimesteps →
    ∃ start count steps, SlabAgrees d name v info t bbox start count steps
  partition : ∀ is, Within (d.file.lens v) is → ∃! p : Int × List Nat,
    (0 ≤ p.1 ∧ p.1 < info.totalTimesteps) ∧ ∃ start count steps,
      hyperslab v.dimids.length info.shape p.1 none = some (start, count, steps) ∧
      Within count p.2 ∧ NcFile.shift start p.2 steps = is

/-- A record that is reported is there, unless there is none. -/
theorem Described.recorded_iff (h : Described d name v info)
    (hdrop : d.file.dropsLeading v = true) :
    (∀ t : Int, 0 ≤ t → t < info.totalTimesteps → t.toNat < (d.file.lens v).headD 0) ↔
      (d.file.lens v).headD 0 ≠ 0 := by
  have htotal := h.total
  constructor
  · intro hall hzero
    rw [hzero] at htotal hall
    exact absurd (hall 0 le_rfl (by simp [htotal])) (Nat.not_lt_zero _)
  · intro hlead t hnonneg ht
    rw [if_pos ⟨hdrop, Nat.pos_of_ne_zero hlead⟩] at htotal
    omega

/-- The elements of a read without a box. -/
theorem Described.element_iff (h : Described d name v info) (ht : 0 ≤ t ∧ t < 2 ^ 63)
    (is js : List Nat) :
    (∃ start count steps, hyperslab v.dimids.length info.shape t none = some (start, count, steps) ∧
        Within count js ∧ NcFile.shift start js steps = is) ↔
      ∃ rest, Within info.shape.extentList rest ∧ js = leading (d.file.dropsLeading v) 0 ++ rest ∧
        is = leading (d.file.dropsLeading v) t.toNat ++ rest := by
  have hok : validateBbox none info.shape = .ok := rfl
  have hslab := h.hyperslab_described hok ⟨ht.1, by omega⟩
  -- without a box, the shift is by zeros
  have hshift : ∀ rest, Within info.shape.extentList rest →
      NcFile.shift (info.shape.extentList.map fun _ => 0) rest
        (info.shape.extentList.map fun _ => 1) = rest := by
    intro rest hrest
    have hzeros := shift_zeros rest
    rwa [hrest.length, ← List.map_const', ← List.map_const'] at hzeros
  constructor
  · rintro ⟨start, count, steps, hmade, hin, rfl⟩
    obtain ⟨rfl, rfl, rfl⟩ : _ = start ∧ _ = count ∧ _ = steps := by
      simpa using hslab.symm.trans hmade
    cases hdrop : d.file.dropsLeading v with
    | false =>
      rw [hdrop] at hin
      exact ⟨js, hin, rfl, hshift js hin⟩
    | true =>
      rw [hdrop] at hin
      obtain ⟨i, rest, hi, hrest, rfl⟩ := List.forall₂_cons_left_iff.mp hin
      obtain rfl : i = 0 := Nat.lt_one_iff.mp hi
      exact ⟨rest, hrest, rfl, congrArg (t.toNat :: ·) (hshift rest hrest)⟩
  · rintro ⟨rest, hrest, rfl, rfl⟩
    refine ⟨_, _, _, hslab, ?_, ?_⟩
    · cases d.file.dropsLeading v with
      | false => exact hrest
      | true => exact within_cons.mpr ⟨Nat.one_pos, hrest⟩
    · cases d.file.dropsLeading v with
      | false => exact hshift rest hrest
      | true => exact congrArg (t.toNat :: ·) (hshift rest hrest)

/-- **Partition.** An element is read with its own record, or with the only timestep there is. -/
theorem Described.partition (h : Described d name v info)
    (hlens : ∀ D ∈ d.file.dims, D.len < 2 ^ 63) {is : List Nat} (his : Within (d.file.lens v) is) :
    ∃! p : Int × List Nat, (0 ≤ p.1 ∧ p.1 < info.totalTimesteps) ∧ ∃ start count steps,
      hyperslab v.dimids.length info.shape p.1 none = some (start, count, steps) ∧
      Within count p.2 ∧ NcFile.shift start p.2 steps = is := by
  have htotal := h.total_lt hlens
  have helement : ∀ p : Int × List Nat, 0 ≤ p.1 ∧ p.1 < info.totalTimesteps → _ :=
    fun p hp => h.element_iff ⟨hp.1, hp.2.trans htotal⟩ is p.2
  have hlens_eq := h.lens_eq
  have hcount := h.total
  cases hdrop : d.file.dropsLeading v with
  | false =>
    rw [hdrop] at hlens_eq hcount
    -- no record dimension: the one timestep reads the whole array
    have hone : info.totalTimesteps = 1 := by simpa using hcount
    have hwhole : Within info.shape.extentList is := by
      rw [hlens_eq] at his
      exact his
    refine ⟨(0, is), ⟨⟨le_rfl, by omega⟩, (helement (0, is) ⟨le_rfl, by omega⟩).mpr
      ⟨is, hwhole, by simp [hdrop, leading], by simp [hdrop, leading]⟩⟩, ?_⟩
    rintro ⟨t, js⟩ ⟨hrange, hread⟩
    obtain ⟨rest, -, hjs, his'⟩ := (helement (t, js) hrange).mp hread
    rw [hdrop] at hjs his'
    exact Prod.ext (by show t = 0; omega) (hjs.trans his'.symm)
  | true =>
    rw [hdrop] at hlens_eq hcount
    rw [hlens_eq] at his
    -- the first index is the timestep, and the others are those of its slab
    obtain ⟨i, rest, hi, hrest, rfl⟩ := List.forall₂_cons_left_iff.mp his
    rw [if_pos ⟨rfl, by omega⟩] at hcount
    have hrange : (0 : Int) ≤ i ∧ (i : Int) < info.totalTimesteps := by omega
    refine ⟨(i, 0 :: rest), ⟨hrange, (helement (i, 0 :: rest) hrange).mpr
      ⟨rest, hrest, by simp [hdrop, leading], by simp [hdrop, leading]⟩⟩, ?_⟩
    rintro ⟨t, js⟩ ⟨hrange', hread⟩
    obtain ⟨rest', -, hjs, his'⟩ := (helement (t, js) hrange').mp hread
    rw [hdrop] at hjs his'
    obtain ⟨hti, rfl⟩ := List.cons.inj his'
    exact Prod.ext (by show t = i; omega) hjs

/-- The leading index is the timestep if and only if a leading dimension was dropped. -/
theorem takes_iff (dropped : Bool) (t : Nat) (offsets extents : List Nat) :
    leading dropped t ++ offsets = t :: offsets ∧ leading dropped 1 ++ extents = 1 :: extents ↔
      dropped = true := by
  cases dropped <;> simp [leading]

/-- A box that is accepted selects something. -/
theorem selection_pos {b : Bbox} (hok : validateBbox (some b) info.shape = .ok) :
    (selection info.shape (some b)).2.1.prod ≠ 0 := by
  obtain ⟨-, hb⟩ := validateBbox_ok_iff.mp hok
  refine (List.prod_pos_iff_forall_pos_nat.mpr fun e he => ?_).ne'
  obtain ⟨k, hk, rfl⟩ := List.mem_map.mp he
  obtain ⟨-, -, hext, -⟩ := hb k hk
  omega

/-- An accepted box is inside the shape if its last index does not wrap around. -/
theorem Described.box_inside_iff (h : Described d name v info)
    (hlens : ∀ D ∈ d.file.dims, D.len < 2 ^ 63) (hok : validateBbox bbox info.shape = .ok) :
    (∀ b ∈ bbox, b.Inside info.shape) ↔ ∀ b ∈ bbox, ¬ b.Wraps info.shape := by
  refine forall₂_congr fun b hb => inside_iff_not_wraps (h.isMachine hlens) ?_
  rwa [Option.mem_def.mp hb] at hok

/-- **Describing and reading.** The two agree unless a time axis without records is dropped in front
of a selection that is not empty, or the last index of the box wraps around. -/
theorem reads_as_described_iff {d : Driver} {name : List UInt8} {v : NcVar} {info : VariableInfo}
    {bbox : Option Bbox} (hlens : ∀ D ∈ d.file.dims, D.len < 2 ^ 63)
    (hv : d.file.vars name = some v) (hinfo : d.describeVariable name = some info)
    (hok : validateBbox bbox info.shape = .ok) :
    ReadsAsDescribed d name v info bbox ↔
      (d.file.dropsLeading v = true → (d.file.lens v).headD 0 = 0 →
        (selection info.shape bbox).2.1.prod = 0) ∧
      ∀ b ∈ bbox, ¬ b.Wraps info.shape := by
  obtain ⟨v', h⟩ := described hinfo
  obtain rfl : v' = v := Option.some.inj (h.isVar.symm.trans hv)
  have htotal := h.total_lt hlens
  have hslab := fun t (ht : 0 ≤ t ∧ t < info.totalTimesteps) =>
    h.hyperslab_described hok ⟨ht.1, ht.2.trans (htotal.trans (by decide))⟩
  rw [← h.box_inside_iff hlens hok]
  constructor
  · rintro ⟨-, hslabs, -⟩
    have hinside : ∀ t : Int, 0 ≤ t → t < info.totalTimesteps →
        (selection info.shape bbox).2.1.prod = 0 ∨
          (d.file.dropsLeading v' = true → t.toNat < (d.file.lens v').headD 0) ∧
            ∀ b ∈ bbox, b.Inside info.shape := by
      intro t hnonneg ht
      obtain ⟨start, count, steps, hmade, -, -, hinside, -⟩ := hslabs t hnonneg ht
      have hsame := Option.some.inj ((hslab t ⟨hnonneg, ht⟩).symm.trans hmade)
      obtain ⟨rfl, rfl, rfl⟩ : _ = start ∧ _ = count ∧ _ = steps := by simpa using hsame
      exact (h.inside_iff hok).mp hinside
    -- timestep 0 is always described, so what its slab needs is needed
    have hfirst : (0 : Int) < info.totalTimesteps := by
      rw [h.total]
      split <;> omega
    refine ⟨fun hdrop hlead => ?_, fun b hb => ?_⟩
    · rcases hinside 0 le_rfl hfirst with hzero | ⟨hrecord, -⟩
      · exact hzero
      · have := hrecord hdrop
        omega
    · rcases hinside 0 le_rfl hfirst with hzero | ⟨-, hbox⟩
      · obtain rfl : bbox = some b := hb
        exact absurd hzero (selection_pos hok)
      · exact hbox b hb
  · rintro ⟨hrecord, hbox⟩
    refine ⟨h, fun t hnonneg ht => ?_, fun is his => h.partition hlens his⟩
    refine ⟨_, _, _, hslab t ⟨hnonneg, ht⟩, fun capacity m hname hshape hdtype => ?_,
      takes_iff _ _ _ _, (h.inside_iff hok).mpr ?_, prod_leading _ _⟩
    · have hread := h.read_eq hok hname hshape hdtype t capacity
      rw [Int.emod_eq_of_lt hnonneg (ht.trans (htotal.trans (by decide)))] at hread
      rw [prod_leading]
      exact hread
    -- an empty slab is inside whatever the record holds
    · by_cases hzero : (selection info.shape bbox).2.1.prod = 0
      · exact .inl hzero
      · refine .inr ⟨fun hdrop => ?_, hbox⟩
        exact (h.recorded_iff hdrop).mpr (fun hlead => hzero (hrecord hdrop hlead)) t hnonneg ht

end Slab

/-- A file with a record dimension of `n` records and a variable of three values a record. -/
def recordFile (n : Nat) : NcFile where
  dims := [⟨text "time", true, n⟩, ⟨text "x", false, 3⟩]
  vars name :=
    if name = text "T" then some ⟨.float, [0, 1], fun _ => none, fun _ => [0, 0, 128, 63]⟩ else none

/-- The file, open for reading. -/
def recordDriver (n : Nat) : Driver := ⟨true, false, fun _ => none, recordFile n⟩

/-- A box of two values whose second index is `2 ^ 63`. -/
def farBox : Bbox := ⟨1, fun _ => 1, fun _ => 2, fun _ => 2 ^ 63 - 1⟩

theorem reads_as_described_of_records : ∃ v info, (recordFile 2).vars (text "T") = some v ∧
    (recordDriver 2).describeVariable (text "T") = some info ∧ info.totalTimesteps = 2 ∧
    ReadsAsDescribed (recordDriver 2) (text "T") v info none := by
  refine ⟨_, _, rfl, rfl, by decide, ?_⟩
  exact (reads_as_described_iff (by decide) rfl rfl rfl).mpr ⟨by decide, by simp⟩

/-- A first timestep that reaches outside. -/
theorem not_readsAsDescribed {d : Driver} {name : List UInt8} {v : NcVar} {info : VariableInfo}
    {bbox : Option Bbox} {start count steps : List Nat} (htotal : 0 < info.totalTimesteps)
    (hslab : hyperslab v.dimids.length info.shape 0 bbox = some (start, count, steps))
    (hout : ¬ d.file.Inside v start count steps) : ¬ ReadsAsDescribed d name v info bbox := by
  intro h
  obtain ⟨start', count', steps', hmade, -, -, hinside, -⟩ := h.slabs 0 le_rfl htotal
  obtain ⟨rfl, rfl, rfl⟩ : start = start' ∧ count = count' ∧ steps = steps' := by
    simpa using hslab.symm.trans hmade
  exact hout hinside

/-- Without records there is one timestep to read, and it is not there; and of two records, a box
may reach far beyond the last value. -/
theorem empty_axis_and_far_box :
    (∃ v info, (recordFile 0).vars (text "T") = some v ∧
      (recordDriver 0).describeVariable (text "T") = some info ∧ info.totalTimesteps = 1 ∧
      hyperslab v.dimids.length info.shape 0 none = some ([0, 0], [1, 3], [1, 1]) ∧
      ¬ (recordDriver 0).file.Inside v [0, 0] [1, 3] [1, 1] ∧
      ¬ ReadsAsDescribed (recordDriver 0) (text "T") v info none) ∧
    ∃ v info, (recordFile 2).vars (text "T") = some v ∧
      (recordDriver 2).describeVariable (text "T") = some info ∧ info.totalTimesteps = 2 ∧
      validateBbox (some farBox) info.shape = .ok ∧
      hyperslab v.dimids.length info.shape 0 (some farBox) =
        some ([0, 1], [1, 2], [1, 2 ^ 63 - 1]) ∧
      ¬ (recordDriver 2).file.Inside v [0, 1] [1, 2] [1, 2 ^ 63 - 1] ∧
      ¬ ReadsAsDescribed (recordDriver 2) (text "T") v info (some farBox) := by
  constructor
  -- no record has been written, but one timestep is reported
  · obtain ⟨v, info, hv, hinfo, htotal, hslab, hout⟩ : ∃ v info,
        (recordFile 0).vars (text "T") = some v ∧
        (recordDriver 0).describeVariable (text "T") = some info ∧ info.totalTimesteps = 1 ∧
        hyperslab v.dimids.length info.shape 0 none = some ([0, 0], [1, 3], [1, 1]) ∧
        ¬ (recordDriver 0).file.Inside v [0, 0] [1, 3] [1, 1] :=
      ⟨_, _, rfl, rfl, by decide, by decide, by decide⟩
    exact ⟨v, info, hv, hinfo, htotal, hslab, hout, not_readsAsDescribed (by omega) hslab hout⟩
  -- the last index of the box wraps around
  · obtain ⟨v, info, hv, hinfo, htotal, hok, hslab, hout⟩ : ∃ v info,
        (recordFile 2).vars (text "T") = some v ∧
        (recordDriver 2).describeVariable (text "T") = some info ∧ info.totalTimesteps = 2 ∧
        validateBbox (some farBox) info.shape = .ok ∧
        hyperslab v.dimids.length info.shape 0 (some farBox) =
          some ([0, 1], [1, 2], [1, 2 ^ 63 - 1]) ∧
        ¬ (recordDriver 2).file.Inside v [0, 1] [1, 2] [1, 2 ^ 63 - 1] :=
      ⟨_, _, rfl, rfl, by decide, by decide +kernel, by decide +kernel, by decide +kernel⟩
    exact ⟨v, info, hv, hinfo, htotal, hok, hslab, hout,
      not_readsAsDescribed (by omega) hslab hout⟩

end Amio.NetCdf
