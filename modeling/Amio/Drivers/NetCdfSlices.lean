import Amio.Drivers.Grib2Read
import Amio.Drivers.NetCdfTime

/-!
# Sub-regions of a netCDF variable

`read` hands a box to `nc_get_vars` and delivers what comes back. `sub_region_is_slice` says that
this is a slice of what `read` delivers of the same timestep without a box, on every file and for
every box that does not wrap around: a hyperslab is the elements of a row-major array at the indices
`offset + i * stride`, the timestep in front of them if there is a time axis.
-/

namespace Amio.NetCdf

open RowMajor
open Grib2 (select selectAt BoxFits within_selectAt)

/-- Every element of the variable has as many bytes as the type says. -/
def NcFile.Typed (f : NcFile) (v : NcVar) : Prop :=
  ∀ is, Within (f.lens v) is → (v.content is).length = v.type.size

/-- The fields of a `VariableInfo` are 64-bit values. -/
structure IsMachine (info : VariableInfo) : Prop where
  shape : info.shape.IsMachine
  total : IsInt64 info.totalTimesteps

/-- Element `k` of a buffer. -/
def element (size : Nat) (out : List UInt8) (k : Nat) : List UInt8 :=
  (out.drop (k * size)).take size

/-- The index of the timestep behind an index of the selection. -/
def selected : Option Bbox → List Nat → List Nat
  | some b, is => select b is
  | none, is => is

/-- The buffer has the elements that are selected of a timestep with the given content, packed in
row-major order. -/
structure Elements (info : VariableInfo) (bbox : Option Bbox) (content : List Nat → List UInt8)
    (out : List UInt8) : Prop where
  length : out.length = (selection info.shape bbox).2.1.prod * elementSize info.dtype
  within : ∀ is, Within (selection info.shape bbox).2.1 is →
    Within info.shape.extentList (selected bbox is)
  element : ∀ is, Within (selection info.shape bbox).2.1 is →
    element (elementSize info.dtype) out (position (selection info.shape bbox).2.1 is) =
      content (selected bbox is)

/-- The types of the library and of AMIO have the same sizes. -/
theorem elementSize_of_ncType {type : NcType} {dtype : Dtype}
    (h : ncTypeToDtype type = some dtype) : elementSize (some dtype) = type.size := by
  cases type <;> cases h <;> rfl

/-- The size of an element is that of the variable's type. -/
theorem elementSize_of_describe {d : Driver} {name : List UInt8} {v : NcVar} {info : VariableInfo}
    (hv : d.file.vars name = some v) (h : d.describeVariable name = some info) :
    elementSize info.dtype = v.type.size := by
  unfold Driver.describeVariable at h
  split at h
  · rw [hv, Option.bind_some] at h
    obtain ⟨dtype, hdtype, h⟩ := Option.bind_eq_some_iff.mp h
    dsimp only at h
    split at h
    · cases h
    · obtain rfl := Option.some.inj h
      exact elementSize_of_ncType hdtype
  · cases h

/-! ### The elements of a hyperslab -/

/-- The index of the timestep goes in front. -/
theorem cells_leading (dropped : Bool) (es : List Nat) :
    cells (leading dropped 1 ++ es) = (cells es).map (leading dropped 0 ++ ·) := by
  cases dropped with
  | false => simp [leading]
  | true => simp [leading, cells]

/-- The leading axis is shifted by itself. -/
theorem shift_leading (dropped : Bool) (t : Nat) (start is steps : List Nat) :
    NcFile.shift (leading dropped t ++ start) (leading dropped 0 ++ is)
        (leading dropped 1 ++ steps) =
      leading dropped t ++ NcFile.shift start is steps := by
  cases dropped with
  | false => rfl
  | true => simp [leading, NcFile.shift]

/-- The elements of a timestep. -/
theorem flatMap_slab (content : List Nat → List UInt8) (dropped : Bool) (t : Nat)
    (start count steps : List Nat) :
    ((cells (leading dropped 1 ++ count)).flatMap fun is =>
        content (NcFile.shift (leading dropped t ++ start) is (leading dropped 1 ++ steps))) =
      (cells count).flatMap fun is =>
        content (leading dropped t ++ NcFile.shift start is steps) := by
  rw [cells_leading, List.flatMap_map]
  exact List.flatMap_congr fun is _ => congrArg content (shift_leading dropped t start is steps)

/-- The element at a place of a selection. -/
theorem element_flatMap {size : Nat} {f : List Nat → List UInt8} {es is : List Nat}
    (hf : ∀ js, Within es js → (f js).length = size) (his : Within es is) :
    element size ((cells es).flatMap f) (position es is) = f is :=
  take_drop_flatMap (fun js hjs => hf js (mem_cells.mp hjs)) (getElem?_cells his)

section Selection

variable {shape : Shape} {b : Bbox} {is : List Nat}

/-- A box that is inside fits. -/
theorem boxFits_of_inside (h : b.Inside shape) {k : Fin maxRank} (hk : k ∈ dims b.rank) :
    BoxFits b shape k := by
  obtain ⟨-, hall⟩ := Bbox.inside_iff.mp h
  obtain ⟨hstride, hoffset, hext, hlast⟩ := hall k hk
  exact ⟨hext, hstride, hoffset, hlast⟩

/-- What a box selects of the shape. -/
theorem shift_selection (h : b.Inside shape) (is : List Nat) :
    NcFile.shift (selection shape (some b)).1 is (selectionSteps shape (some b)) = select b is := by
  have hall : ∀ k ∈ dims b.rank, 0 ≤ b.offsets k ∧ 0 ≤ b.strides k := fun k hk =>
    ⟨(boxFits_of_inside h hk).offset_nonneg, by have := (boxFits_of_inside h hk).stride_pos; omega⟩
  simp only [selection, selectionSteps, select]
  generalize dims b.rank = ds at hall
  induction ds generalizing is with
  | nil => rfl
  | cons k ds ih =>
    cases is with
    -- a cell with too few indices ends both
    | nil => simp [NcFile.shift, selectAt]
    | cons i is =>
      obtain ⟨hoffset, hstride⟩ := hall k List.mem_cons_self
      -- the entries of the box are not negative, so that the casts are exact
      have hindex : (b.offsets k).toNat + i * (b.strides k).toNat =
          (b.offsets k + i * b.strides k).toNat := by
        apply Int.ofNat_inj.mp
        have hprod : 0 ≤ (i : Int) * b.strides k := mul_nonneg (Int.natCast_nonneg i) hstride
        rw [Int.toNat_of_nonneg (by omega)]
        push_cast [Int.toNat_of_nonneg hoffset, Int.toNat_of_nonneg hstride]
        rfl
      have hrest := ih is fun e he => hall e (List.mem_cons_of_mem _ he)
      simp only [NcFile.shift, selectAt, List.map_cons, List.zipWith_cons_cons] at hrest ⊢
      rw [hindex, hrest]

/-- Without a box, the selection is the shape. -/
theorem shift_whole (h : Within shape.extentList is) :
    NcFile.shift (selection shape none).1 is (selectionSteps shape none) = is := by
  have hzeros := shift_zeros is
  simp only [selection, selectionSteps, List.map_const', ← h.length]
  exact hzeros

/-- A selected cell is inside. -/
theorem within_select (h : b.Inside shape) (his : Within b.extentList is) :
    Within shape.extentList (select b is) := by
  have hrank := (Bbox.inside_iff.mp h).1
  have hfits := within_selectAt (fun k hk => boxFits_of_inside h hk) his
  rw [hrank] at hfits
  rw [select, hrank]
  exact hfits

/-- A shape with a box inside is not empty. -/
theorem prod_pos_of_inside (h : b.Inside shape) : 0 < shape.extentList.prod := by
  refine List.prod_pos_iff_forall_pos_nat.mpr fun e he => ?_
  obtain ⟨k, hk, rfl⟩ := List.mem_map.mp he
  rw [← (Bbox.inside_iff.mp h).1] at hk
  have hpos := (boxFits_of_inside h hk).extents_pos
  omega

/-- An accepted box is inside the shape unless it wraps around. -/
theorem inside_of_accepted {bbox : Option Bbox} (hmachine : shape.IsMachine)
    (hok : validateBbox bbox shape = .ok) (hbox : ∀ b ∈ bbox, ¬ b.Wraps shape) :
    ∀ b ∈ bbox, b.Inside shape := by
  rintro b rfl
  exact (inside_iff_not_wraps hmachine hok).mpr (hbox b rfl)

/-- The library's cells are the selected ones. -/
theorem shift_selected {bbox : Option Bbox} (h : ∀ b ∈ bbox, b.Inside shape)
    (his : Within (selection shape bbox).2.1 is) :
    NcFile.shift (selection shape bbox).1 is (selectionSteps shape bbox) = selected bbox is := by
  cases bbox with
  | none => exact shift_whole his
  | some b => exact shift_selection (h b rfl) is

/-- A selected cell is inside. -/
theorem within_selected {bbox : Option Bbox} (h : ∀ b ∈ bbox, b.Inside shape)
    (his : Within (selection shape bbox).2.1 is) : Within shape.extentList (selected bbox is) := by
  cases bbox with
  | none => exact his
  | some b => exact within_select (h b rfl) his

end Selection

/-! ### The result -/

section Slices

variable {d : Driver} {name : List UInt8} {v : NcVar} {info : VariableInfo} {b : Bbox} {t : Int}
  {m : VarMeta}

/-- What `read` delivers of a timestep that is described. -/
theorem Described.delivers (h : Described d name v info) {bbox : Option Bbox}
    (hok : validateBbox bbox info.shape = .ok) (ht : 0 ≤ t ∧ t < 2 ^ 64) (hname : m.name = name)
    (hshape : m.shape = info.shape) (hdtype : m.dtype = info.dtype) {capacity : Nat}
    {out : List UInt8} {n : Nat} : d.read capacity m t bbox = some (out, n) ↔
      u64 ((selection info.shape bbox).2.1.prod * elementSize info.dtype) ≤ capacity ∧
      d.file.Inside v (leading (d.file.dropsLeading v) t.toNat ++ (selection info.shape bbox).1)
        (leading (d.file.dropsLeading v) 1 ++ (selection info.shape bbox).2.1)
        (leading (d.file.dropsLeading v) 1 ++ selectionSteps info.shape bbox) ∧
      out = ((cells (selection info.shape bbox).2.1).flatMap fun is =>
        v.content (leading (d.file.dropsLeading v) t.toNat ++
          NcFile.shift (selection info.shape bbox).1 is (selectionSteps info.shape bbox))) ∧
      n = u64 ((selection info.shape bbox).2.1.prod * elementSize info.dtype) := by
  rw [h.read_eq hok hname hshape hdtype, Int.emod_eq_of_lt ht.1 ht.2]
  split
  -- the capacity is too small, on both sides
  · next hlt =>
    simp only [reduceCtorEq, false_iff, not_and]
    omega
  -- else it is up to the library whether the slab is inside
  · next hge =>
    rw [NcFile.getVars]
    split
    · next hin =>
      simp only [Option.map_some, Option.some.injEq, Prod.mk.injEq, flatMap_slab, hin, true_and]
      exact ⟨fun hout => ⟨by omega, hout.1.symm, hout.2.symm⟩,
        fun hout => ⟨hout.2.1.symm, hout.2.2.symm⟩⟩
    · next hout => simp [hout]

/-- The elements of a timestep that is there are elements of the variable. -/
theorem Described.within_lens (h : Described d name v info)
    (hrecord : d.file.dropsLeading v = true → t.toNat < (d.file.lens v).headD 0) {is : List Nat}
    (his : Within info.shape.extentList is) :
    Within (d.file.lens v) (leading (d.file.dropsLeading v) t.toNat ++ is) := by
  have hlens := h.lens_eq
  cases hdrop : d.file.dropsLeading v with
  | false =>
    rw [hdrop] at hlens
    rw [hlens]
    exact his
  | true =>
    rw [hdrop] at hlens
    rw [hlens]
    exact within_cons.mpr ⟨hrecord hdrop, his⟩

/-- **What `read` delivers**: the elements of the variable that are selected of the timestep. -/
theorem read_elements (hmachine : IsMachine info) (hv : d.file.vars name = some v)
    (htyped : d.file.Typed v) (hinfo : d.describeVariable name = some info) {bbox : Option Bbox}
    (hok : validateBbox bbox info.shape = .ok) (hbox : ∀ b ∈ bbox, ¬ b.Wraps info.shape)
    (ht : 0 ≤ t ∧ t < info.totalTimesteps) (hname : m.name = name) (hshape : m.shape = info.shape)
    (hdtype : m.dtype = info.dtype) {capacity : Nat} {out : List UInt8} {n : Nat}
    (hread : d.read capacity m t bbox = some (out, n)) :
    Elements info bbox (fun is => v.content (leading (d.file.dropsLeading v) t.toNat ++ is)) out ∧
      n = u64 out.length := by
  obtain ⟨v', h⟩ := described hinfo
  obtain rfl : v' = v := Option.some.inj (h.isVar.symm.trans hv)
  have htotal := hmachine.total.2
  have hinside := inside_of_accepted hmachine.shape hok hbox
  have helem := elementSize_of_describe hv hinfo
  obtain ⟨-, hin, rfl, rfl⟩ := (h.delivers hok ⟨ht.1, by omega⟩ hname hshape hdtype).mp hread
  have hcontent : ∀ is, Within (selection info.shape bbox).2.1 is →
      (v'.content (leading (d.file.dropsLeading v') t.toNat ++
        NcFile.shift (selection info.shape bbox).1 is (selectionSteps info.shape bbox))).length =
          elementSize info.dtype := by
    intro is his
    -- something is selected, so the timestep is there
    have hpos : (selection info.shape bbox).2.1.prod ≠ 0 := Nat.ne_zero_of_lt (position_lt his)
    have hrecord := ((h.inside_iff hok).mp hin).resolve_left hpos
    rw [shift_selected hinside his, helem]
    exact htyped _ (h.within_lens hrecord.1 (within_selected hinside his))
  have hlength : ((cells (selection info.shape bbox).2.1).flatMap fun is =>
      v'.content (leading (d.file.dropsLeading v') t.toNat ++
        NcFile.shift (selection info.shape bbox).1 is (selectionSteps info.shape bbox))).length =
          (selection info.shape bbox).2.1.prod * elementSize info.dtype := by
    rw [List.length_flatMap, List.map_congr_left fun is his => hcontent is (mem_cells.mp his)]
    simp [length_cells]
  refine ⟨⟨hlength, fun is his => within_selected hinside his, fun is his => ?_⟩, by rw [hlength]⟩
  rw [element_flatMap hcontent his, shift_selected hinside his]

/-- **A sub-region is a slice.** When `read` delivers a timestep as a whole, then it delivers every
box that does not wrap around, to a buffer that takes it, and the elements of the box are those of
the timestep at the indices that the box selects. -/
theorem sub_region_is_slice (hmachine : IsMachine info) (hv : d.file.vars name = some v)
    (htyped : d.file.Typed v) (hinfo : d.describeVariable name = some info)
    (hok : validateBbox (some b) info.shape = .ok) (hbox : ¬ b.Wraps info.shape)
    (ht : 0 ≤ t ∧ t < info.totalTimesteps) (hname : m.name = name) (hshape : m.shape = info.shape)
    (hdtype : m.dtype = info.dtype) {wide : Nat} {whole : List UInt8} {used : Nat}
    (hwhole : d.read wide m t none = some (whole, used)) {capacity : Nat}
    (hcapacity : b.extentList.prod * elementSize info.dtype ≤ capacity)
    (hsize : capacity < 2 ^ 64) :
    ∃ out, d.read capacity m t (some b) = some (out, out.length) ∧
      Elements info (some b) (fun is => element (elementSize info.dtype) whole
        (position info.shape.extentList is)) out := by
  obtain ⟨v', h⟩ := described hinfo
  obtain rfl : v' = v := Option.some.inj (h.isVar.symm.trans hv)
  have htotal := hmachine.total.2
  have hrange : 0 ≤ t ∧ t < 2 ^ 64 := ⟨ht.1, by omega⟩
  have hnowrap : ∀ b' ∈ some b, ¬ b'.Wraps info.shape := by simpa using hbox
  have hinside := inside_of_accepted hmachine.shape hok hnowrap
  have hfits : u64 (b.extentList.prod * elementSize info.dtype) =
      b.extentList.prod * elementSize info.dtype := Nat.mod_eq_of_lt (by omega)
  -- the timestep is there, since it was delivered as a whole
  obtain ⟨-, hin, -, -⟩ := (h.delivers rfl hrange hname hshape hdtype).mp hwhole
  have hrecord := ((h.inside_iff rfl).mp hin).resolve_left
    (prod_pos_of_inside (hinside b rfl)).ne'
  have hread : d.read capacity m t (some b) = some (_, _) :=
    (h.delivers hok hrange hname hshape hdtype).mpr
      ⟨hfits.le.trans hcapacity, (h.inside_iff hok).mpr (.inr ⟨hrecord.1, hinside⟩), rfl, rfl⟩
  obtain ⟨hout, -⟩ :=
    read_elements hmachine hv htyped hinfo hok hnowrap ht hname hshape hdtype hread
  obtain ⟨hall, -⟩ :=
    read_elements hmachine hv htyped hinfo rfl (by simp) ht hname hshape hdtype hwhole
  refine ⟨_, hread.trans ?_, hout.length, hout.within, fun is his => ?_⟩
  · exact congrArg some (Prod.ext rfl (hfits.trans hout.length.symm))
  · exact (hout.element is his).trans (hall.element _ (hout.within is his)).symm

end Slices

/-- Two records of three bytes. -/
def byteFile : NcFile where
  dims := [⟨text "time", true, 2⟩, ⟨text "x", false, 3⟩]
  vars name := if name = text "T" then
    some ⟨.byte, [0, 1], fun _ => none, fun is => [UInt8.ofNat (position [10, 10] is)]⟩
  else none

/-- Every second byte. -/
def everySecond : Bbox := ⟨1, fun _ => 0, fun _ => 2, fun _ => 2⟩

theorem sub_region_is_slice_of_bytes :
    ∃ info out, (Driver.mk true false (fun _ => none) byteFile).describeVariable (text "T") =
        some info ∧
      (Driver.mk true false (fun _ => none) byteFile).read 2 ⟨0, 0, text "T", info.dtype,
        info.shape, 0⟩ 1 (some everySecond) = some (out, 2) ∧
      element 1 out 0 = [10] ∧ element 1 out 1 = [12] := by
  obtain ⟨info, hinfo, hmachine, hok, htotal, hsize, hext, hsel, hwhole⟩ : ∃ info,
      (Driver.mk true false (fun _ => none) byteFile).describeVariable (text "T") = some info ∧
      IsMachine info ∧ validateBbox (some everySecond) info.shape = .ok ∧
      info.totalTimesteps = 2 ∧ elementSize info.dtype = 1 ∧ info.shape.extentList = [3] ∧
      (selection info.shape (some everySecond)).2.1 = [2] ∧
      (Driver.mk true false (fun _ => none) byteFile).read 3 ⟨0, 0, text "T", info.dtype,
        info.shape, 0⟩ 1 none = some ([10, 11, 12], 3) :=
    ⟨_, rfl, ⟨fun d => by revert d; decide +kernel, by decide⟩, by decide +kernel, rfl, rfl, rfl,
      rfl, by decide +kernel⟩
  -- the last index of the box is small
  have hwraps : ¬ everySecond.Wraps info.shape := by
    rintro ⟨-, -, k, -, hlast⟩
    exact absurd hlast (by simp [Bbox.last, everySecond])
  have hcapacity : everySecond.extentList.prod * elementSize info.dtype ≤ 2 := by
    rw [hsize]
    decide
  obtain ⟨out, hread, hout⟩ := sub_region_is_slice hmachine rfl (fun _ _ => rfl) hinfo hok hwraps
    (by omega) rfl rfl rfl hwhole hcapacity (by decide)
  have hlen := hout.length
  -- the two elements are the first and the third of the record
  have hslice := hout.element
  rw [hsel, hsize] at hlen
  rw [hlen] at hread
  rw [hsel, hsize, hext] at hslice
  exact ⟨info, out, hinfo, hread, hslice [0] (by decide), hslice [1] (by decide)⟩

end Amio.NetCdf
