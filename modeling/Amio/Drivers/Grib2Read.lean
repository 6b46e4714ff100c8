import Amio.Api.ViewShape
import Amio.Drivers.Grib2Scan
import Amio.Lib.Outcome

/-!
# The GRIB2 driver: reading a record

A GRIB2 record can only be decoded whole. `GRIB2_Driver::read` decodes the record of the timestep
and then delivers all of it, or gathers the bounding box out of it with an odometer. The grid is the
one of the index entry, which is that of the first record filed there; the number of points is that
of the record decoded. Where they agree, a selection is a slice of the full read
(`subset_is_slice`).
Nothing makes them agree for a later record, and `readsInside_iff` says what they may differ in.

An overflow of `std::int64_t` and an access outside a vector have no outcome here (`undefined`). The
unpacking call of `nceplibs-g2c` is a parameter, and the points are of any type.
-/

namespace Amio.Grib2

open RowMajor

/-- The entries of an unpacked `gribfield` that `read` takes. -/
structure UnpackedField (α : Type) where
  ngrdpts : Int64
  fld : Option (List α)

/-- `g2_getfld` with `unpack = 1`: a message and a field number to the return code and the field. -/
abbrev Unpack (α : Type) := List UInt8 → Int64 → Int64 × Option (UnpackedField α)

/-- The state of the driver that reading depends on. -/
structure Reader where
  initialized : Bool
  readMode : Bool
  inputPath : String
  records : RecordIndex

/-! ### The shape of a field -/

/-- `n` points in a row. -/
def row (n : Int) : Shape := ⟨1, fun d => if d.val = 0 then n else 0, fun _ => 0⟩

/-- `nj` rows of `ni` points. -/
def grid (nj ni : Int) : Shape :=
  ⟨2, fun d => if d.val = 0 then nj else if d.val = 1 then ni else 0, fun _ => 0⟩

/-- The shape that `describe_variable` reports. -/
def GribFieldIndex.shape (entry : GribFieldIndex) : Shape :=
  if 1 < entry.nj then grid entry.nj.toInt entry.ni.toInt else row entry.ni.toInt

/-- `grid_rank` and `grid_extents` of `read`, for a record of `ngrdpts` points. -/
def GribFieldIndex.decodedShape (entry : GribFieldIndex) (ngrdpts : Nat) : Shape :=
  if 1 < entry.nj then grid entry.nj.toInt entry.ni.toInt else row ngrdpts

/-- An `std::int64_t` result. -/
def checked (n : Int) : Outcome String Int := do
  .expect (IsInt64 n)
  return n

namespace Reader

variable {α : Type} (r : Reader) (unpack : Unpack α) (file : Option GribFile)

/-- `describe_variable`; `none` when it is not found. -/
def describeVariable (name : String) : Option VariableInfo :=
  if r.initialized = true ∧ r.readMode = true then
    (r.records.lookup name).bind fun entry =>
      -- an empty entry is no field
      if entry.records.isEmpty then none
      else some
        { dtype := some .f32
          shape := entry.shape
          totalTimesteps := entry.records.length }
  else none

/-- The index entry and the record of a timestep. -/
def locate (name : String) (timestep : Int) :
    Outcome String (GribFieldIndex × GribRecordLocation) := do
  .throwIf (r.initialized = false) "GRIB2_Driver::read called before successful initialization"
  .throwIf (r.readMode = false) "GRIB2_Driver::read: driver was not opened for reading."
  let entry := (r.records.lookup name).getD {}
  .throwIf (entry.records.isEmpty = true)
    ("GRIB2_Driver::read: field '" ++ name ++ "' not found in the GRIB2 record index.")
  -- a timestep is the number of a record, in the order of the file
  .throwIf (timestep < 0 ∨ entry.records.length ≤ timestep)
    ("GRIB2_Driver::read: timestep " ++ toString timestep ++ " out of range for field '" ++ name ++
      "' (" ++ toString entry.records.length ++ " records).")
  let loc ← .ofOption entry.records[timestep.toNat]?
  .throwIf (loc.length ≤ 0)
    ("GRIB2_Driver::read: invalid record length for field '" ++ name ++ "'.")
  return (entry, loc)

/-- Reading and unpacking a record: `full`. The vector takes no more than `max_size()` floats, and
`memcpy` copies `ngrdpts` of them. -/
def unpackRecord (name : String) (loc : GribRecordLocation) : Outcome String (List α) := do
  let fp ← .orThrow ("GRIB2_Driver::read: failed to open input file '" ++ r.inputPath ++
    "' for reading.") file
  let cgrib ← .ofExcept (readBytes fp loc.offset loc.length
    ("GRIB2_Driver::read: seek failed decoding field '" ++ name ++ "'.")
    ("GRIB2_Driver::read: short read decoding field '" ++ name ++ "'."))
  let (ret, found) := unpack cgrib loc.fieldNumber
  let gfld ← .orThrow ("GRIB2_Driver::read: g2_getfld failed (code " ++ toString ret ++
    ") decoding field '" ++ name ++ "'.") (if ret = 0 then found else none)
  let noData := "GRIB2_Driver::read: decoded field '" ++ name ++ "' has no grid-point data."
  .throwIf (gfld.ngrdpts ≤ 0) noData
  let fld ← .orThrow noData gfld.fld
  -- the vector of the values must be allocated
  .throwIf (2 ^ 61 ≤ gfld.ngrdpts.toNatClampNeg) "cannot create std::vector larger than max_size()"
  -- the driver trusts `ngrdpts` for the length of `fld`
  .expect (gfld.ngrdpts.toNatClampNeg ≤ fld.length)
  return fld.take gfld.ngrdpts.toNatClampNeg

/-- `full`, with the index entry it belongs to. -/
def decode (name : String) (timestep : Int) : Outcome String (GribFieldIndex × List α) := do
  let p ← r.locate name timestep
  let full ← r.unpackRecord unpack file name p.2
  return (p.1, full)

end Reader

/-! ### The box -/

/-- The loop over the dimensions that validates the box and counts its elements. -/
def boxStep (shape : Shape) (name : String) (b : Bbox) (count : Nat) (d : Fin maxRank) :
    Outcome String Nat := do
  .throwIf (b.extents d < 1 ∨ b.strides d < 1 ∨ b.offsets d < 0)
    ("GRIB2_Driver::read: invalid bounding box for field '" ++ name ++ "'.")
  -- in `int64_t`, where an overflow is undefined
  let steps ← checked ((b.extents d - 1) * b.strides d)
  let last ← checked (b.offsets d + steps)
  .throwIf (shape.extents d ≤ last)
    ("GRIB2_Driver::read: bounding box exceeds field extents for '" ++ name ++ "'.")
  return u64 (count * toSize (b.extents d))

/-- The checks of `read` on the selection, to the number of elements it delivers. -/
def selectedElements (shape : Shape) (ngrdpts capacity : Nat) (name : String) :
    Option Bbox → Outcome String Nat
  | none => do
    .throwIf (capacity < u64 (ngrdpts * 4))
      "GRIB2_Driver::read: decoded payload exceeds staging buffer capacity."
    return ngrdpts
  | some b => do
    .throwIf (b.rank ≠ shape.rank)
      "GRIB2_Driver::read: bounding-box rank does not match field rank."
    let subElems ← (dims shape.rank).foldlM (boxStep shape name b) 1
    .throwIf (capacity < u64 (subElems * 4))
      "GRIB2_Driver::read: sub-region exceeds staging buffer capacity."
    return subElems

/-- One turn of the loop over `full_strides`, with `stride_acc`. -/
def fullStrideStep (shape : Shape) (d : Fin maxRank)
    (acc : Outcome String ((Fin maxRank → Int) × Int)) :
    Outcome String ((Fin maxRank → Int) × Int) := do
  let p ← acc
  let stride ← checked (p.2 * shape.extents d)
  return (Function.update p.1 d p.2, stride)

/-- `full_strides`. -/
def fullStrides (shape : Shape) : Outcome String (Fin maxRank → Int) := do
  let p ← (dims shape.rank).foldr (fullStrideStep shape) (.done ((fun _ => 0), 1))
  return p.1

/-- One turn of the loop over `src_off`. -/
def srcOffStep (b : Bbox) (strides idx : Fin maxRank → Int) (acc : Int) (d : Fin maxRank) :
    Outcome String Int := do
  let steps ← checked (idx d * b.strides d)
  let index ← checked (b.offsets d + steps)
  let term ← checked (index * strides d)
  checked (acc + term)

/-- `src_off`, the place of an element of the box in the full grid. -/
def srcOff (b : Bbox) (rank : Int) (strides idx : Fin maxRank → Int) : Outcome String Int :=
  (dims rank).foldlM (srcOffStep b strides idx) 0

/-- The loop that gathers the elements, `n` of them left and `out` behind them. -/
def gatherLoop {α : Type} (full : List α) (capacity : Nat) (b : Bbox) (rank : Int)
    (strides : Fin maxRank → Int) : Nat → (Fin maxRank → Int) → List α → Outcome String (List α)
  | 0, _, out => .done out
  | n + 1, idx, out => do
    let off ← srcOff b rank strides idx
    let value ← .ofOption full[toSize off]?
    -- the store must be inside the staging buffer
    .expect ((out.length + 1) * 4 ≤ capacity)
    gatherLoop full capacity b rank strides n (increment ⟨rank, b.extents, b.strides⟩ idx)
      (out ++ [value])

/-- What is delivered of a decoded record. -/
def deliver {α : Type} (shape : Shape) (full : List α) (capacity elems : Nat) :
    Option Bbox → Outcome String (List α)
  | none => .done full
  | some b => do
    let strides ← fullStrides shape
    gatherLoop full capacity b shape.rank strides elems (fun _ => 0) []

/-- `GRIB2_Driver::read` into a buffer of the given capacity: the points delivered and
`used_bytes`. -/
def Reader.read {α : Type} (r : Reader) (unpack : Unpack α) (file : Option GribFile)
    (capacity : Nat) (name : String) (timestep : Int) (bbox : Option Bbox) :
    Outcome String (List α × Nat) := do
  -- the whole field is decoded before the box is looked at
  let p ← r.decode unpack file name timestep
  let shape := p.1.decodedShape p.2.length
  let elems ← selectedElements shape p.2.length capacity name bbox
  let out ← deliver shape p.2 capacity elems bbox
  return (out, u64 (elems * 4))

/-! ### Checked arithmetic -/

theorem checked_of_isInt64 {n : Int} (h : IsInt64 n) : checked n = .done n := by
  rw [checked, Outcome.expect_of h, Outcome.done_bind, Outcome.pure_eq]

/-- A number that does not. -/
theorem checked_of_not {n : Int} (h : ¬ IsInt64 n) : checked n = .undefined := by
  rw [checked, Outcome.expect_of_not h, Outcome.undefined_bind]

/-- A checked number is itself. -/
theorem checked_eq_done {n m : Int} : checked n = .done m ↔ IsInt64 n ∧ n = m := by
  by_cases h : IsInt64 n
  · rw [checked_of_isInt64 h]
    simp [h]
  · rw [checked_of_not h]
    simp [h]

/-! ### The box within the grid -/

/-- The box selects indices of dimension `d`, and the last of them is in range. -/
structure BoxFits (b : Bbox) (shape : Shape) (d : Fin maxRank) : Prop where
  extent_pos : 1 ≤ b.extents d
  stride_pos : 1 ≤ b.strides d
  offset_nonneg : 0 ≤ b.offsets d
  last_lt : b.last d < shape.extents d

section Box

variable {shape : Shape} {name : String} {b : Bbox} {ds : List (Fin maxRank)} {d : Fin maxRank}

theorem boxStep_eq_done {count n : Nat} (h : boxStep shape name b count d = .done n) :
    BoxFits b shape d ∧ n = u64 (count * toSize (b.extents d)) := by
  simp only [boxStep, Outcome.bind_eq_done, Outcome.throwIf_eq_done, checked_eq_done,
    Outcome.pure_eq, Outcome.done.injEq] at h
  obtain ⟨-, hvalid, steps, ⟨-, rfl⟩, last, ⟨-, rfl⟩, -, hlast, rfl⟩ := h
  exact ⟨⟨by omega, by omega, by omega, by rw [Bbox.last]; omega⟩, rfl⟩

/-- The loop over the dimensions: every dimension of the box fits, and the elements are counted
modulo `2 ^ 64`. -/
theorem foldlM_boxStep {c n : Nat}
    (h : ds.foldlM (boxStep shape name b) (c % 2 ^ 64) = .done n) :
    (∀ d ∈ ds, BoxFits b shape d) ∧
      n = c * (ds.map fun d => (b.extents d).toNat).prod % 2 ^ 64 := by
  induction ds generalizing c with
  | nil => exact ⟨by simp, by simpa using h.symm⟩
  | cons d ds ih =>
    rw [List.foldlM_cons, Outcome.bind_eq_done] at h
    obtain ⟨n₁, hstep, hrest⟩ := h
    obtain ⟨hfits, rfl⟩ := boxStep_eq_done hstep
    have hpos := hfits.extent_pos
    -- the count is a product of casts, modulo `2 ^ 64`
    have hmod : toSize (b.extents d) = (b.extents d).toNat % 2 ^ 64 := by
      rw [toSize]
      omega
    rw [u64, hmod, ← Nat.mul_mod] at hrest
    obtain ⟨hall, rfl⟩ := ih hrest
    refine ⟨?_, by rw [List.map_cons, List.prod_cons, Nat.mul_assoc]⟩
    rintro e he
    obtain rfl | he := List.mem_cons.mp he
    · exact hfits
    · exact hall e he

/-- The indices of the grid that the box selects at its own indices `is`. -/
def selectAt (b : Bbox) (ds : List (Fin maxRank)) (is : List Nat) : List Nat :=
  List.zipWith (fun d i => (b.offsets d + (i : Nat) * b.strides d).toNat) ds is

/-- No index of a box is beyond its last. -/
theorem BoxFits.index_le {i : Int} (h : BoxFits b shape d) (hnonneg : 0 ≤ i)
    (hlt : i < b.extents d) : 0 ≤ i * b.strides d ∧ b.offsets d + i * b.strides d ≤ b.last d := by
  have hstride := h.stride_pos
  have hle : i * b.strides d ≤ (b.extents d - 1) * b.strides d :=
    mul_le_mul_of_nonneg_right (by omega) (by omega)
  exact ⟨mul_nonneg hnonneg (by omega), by rw [Bbox.last]; omega⟩

/-- The last index is at least the extent. -/
theorem BoxFits.extent_le_last (h : BoxFits b shape d) : b.extents d - 1 ≤ b.last d := by
  have hextent := h.extent_pos
  have hoffset := h.offset_nonneg
  have hle : (b.extents d - 1) * 1 ≤ (b.extents d - 1) * b.strides d :=
    mul_le_mul_of_nonneg_left h.stride_pos (by omega)
  rw [Bbox.last]
  omega

/-- A box fits into no empty axis. -/
theorem BoxFits.extents_pos (h : BoxFits b shape d) : 0 < shape.extents d := by
  have hextent := h.extent_pos
  have hlast := h.last_lt
  have hle := h.extent_le_last
  omega

/-- What is selected is inside the grid … -/
theorem within_selectAt {is : List Nat} (hfits : ∀ d ∈ ds, BoxFits b shape d)
    (his : Within (ds.map fun d => (b.extents d).toNat) is) :
    Within (extentsAt shape ds) (selectAt b ds is) := by
  induction ds generalizing is with
  | nil => exact within_nil.mpr rfl
  | cons d ds ih =>
    cases is with
    | nil => exact absurd his not_within_cons_nil
    | cons i is =>
      obtain ⟨hindex, his⟩ := within_cons.mp his
      have hi : i < (b.extents d).toNat := hindex
      have hd := hfits d List.mem_cons_self
      -- the index is not beyond the last one, which is inside the axis
      have hle := (hd.index_le (Int.natCast_nonneg i) (by omega)).2
      have hlast := hd.last_lt
      have hpos := hd.extents_pos
      have hindex : (b.offsets d + i * b.strides d).toNat < (shape.extents d).toNat := by omega
      exact within_cons.mpr ⟨hindex, ih (fun e he => hfits e (List.mem_cons_of_mem _ he)) his⟩

/-- … and not behind the last point of the box. -/
theorem selectAt_le_last {is : List Nat} (hfits : ∀ d ∈ ds, BoxFits b shape d)
    (his : Within (ds.map fun d => (b.extents d).toNat) is) :
    List.Forall₂ (· ≤ ·) (selectAt b ds is) (ds.map fun d => (b.last d).toNat) := by
  induction ds generalizing is with
  | nil => exact .nil
  | cons d ds ih =>
    cases is with
    | nil => exact absurd his not_within_cons_nil
    | cons i is =>
      obtain ⟨hindex, his⟩ := within_cons.mp his
      have hi : i < (b.extents d).toNat := hindex
      have hd := hfits d List.mem_cons_self
      have hle := (hd.index_le (Int.natCast_nonneg i) (by omega)).2
      exact .cons (Int.toNat_le_toNat hle)
        (ih (fun e he => hfits e (List.mem_cons_of_mem _ he)) his)

/-- The last cell of a box. -/
theorem selectAt_last (hfits : ∀ d ∈ ds, BoxFits b shape d) :
    selectAt b ds (last (ds.map fun d => (b.extents d).toNat)) =
      ds.map fun d => (b.last d).toNat := by
  rw [selectAt, last, List.map_map, List.zipWith_map_right, List.zipWith_self]
  refine List.map_congr_left fun d hd => ?_
  have hextent := (hfits d hd).extent_pos
  have hcast : (((b.extents d).toNat - 1 : Nat) : Int) = b.extents d - 1 := by omega
  show (b.offsets d + (((b.extents d).toNat - 1 : Nat) : Int) * b.strides d).toNat = _
  rw [hcast]
  rfl

/-- A box that fits is not empty. -/
theorem boxExtents_pos (hfits : ∀ d ∈ ds, BoxFits b shape d) :
    ∀ e ∈ ds.map fun d => (b.extents d).toNat, 0 < e := by
  intro e he
  obtain ⟨d, hd, rfl⟩ := List.mem_map.mp he
  have := (hfits d hd).extent_pos
  omega

/-- A box has no more elements than the points up to its last one. -/
theorem prod_le_position (hfits : ∀ d ∈ ds, BoxFits b shape d) :
    (ds.map fun d => (b.extents d).toNat).prod ≤
      position (extentsAt shape ds) (ds.map fun d => (b.last d).toNat) + 1 := by
  have hmap : ∀ f g : Fin maxRank → Nat, (∀ d ∈ ds, f d ≤ g d) →
      List.Forall₂ (· ≤ ·) (ds.map f) (ds.map g) := fun f g h =>
    List.forall₂_map_left_iff.mpr (List.forall₂_map_right_iff.mpr (List.forall₂_same.mpr h))
  rw [← position_last (boxExtents_pos hfits), last, List.map_map]
  refine Nat.add_le_add_right (position_le_position (hmap _ _ fun d hd => ?_)
    (hmap _ _ fun d hd => ?_)) 1
  · have hlast := (hfits d hd).last_lt
    have hstep := (hfits d hd).extent_le_last
    exact Int.toNat_le_toNat (by omega)
  · have hstep := (hfits d hd).extent_le_last
    have hindex : (b.extents d).toNat - 1 ≤ (b.last d).toNat := by omega
    exact hindex

/-- The loop over the strides, as long as no product is too large. -/
theorem foldr_fullStrideStep (hnodup : ds.Nodup) (hpos : ∀ d ∈ ds, 0 < shape.extents d)
    (hprod : (extentsAt shape ds).prod < 2 ^ 63) :
    ∃ strides, ds.foldr (fullStrideStep shape) (.done ((fun _ => 0), 1)) =
        .done (strides, ((extentsAt shape ds).prod : Int)) ∧
      ds.map strides = (rowMajor (extentsAt shape ds)).map Int.ofNat := by
  induction ds with
  | nil => exact ⟨_, rfl, rfl⟩
  | cons d ds ih =>
    obtain ⟨hd, hnodup⟩ := List.nodup_cons.mp hnodup
    have hpositive := hpos d List.mem_cons_self
    obtain ⟨strides, hrest, hstrides⟩ := ih hnodup (fun e he => hpos e (List.mem_cons_of_mem _ he))
      ((prod_extentsAt_le hpositive).trans_lt hprod)
    -- the stride of the axis is the size of a row of the inner ones
    refine ⟨Function.update strides d ((extentsAt shape ds).prod : Int), ?_, ?_⟩
    · rw [List.foldr_cons, hrest, fullStrideStep, Outcome.done_bind,
        ← prod_extentsAt_cons hpositive, checked_of_isInt64 ⟨by omega, by exact_mod_cast hprod⟩,
        Outcome.done_bind]
      rfl
    · have hmap := map_update_of_notMem hd strides ((extentsAt shape ds).prod : Int) id
      show Function.update _ d _ d :: _ = _ :: _
      rw [Function.update_self]
      exact congrArg _ (hmap.trans hstrides)

/-- A grid of too many points has no strides. -/
theorem foldr_fullStrideStep_undefined (hpos : ∀ d ∈ ds, 0 < shape.extents d)
    (hnodup : ds.Nodup) (hprod : 2 ^ 63 ≤ (extentsAt shape ds).prod) :
    ds.foldr (fullStrideStep shape) (.done ((fun _ => 0), 1)) = .undefined := by
  induction ds with
  | nil =>
    rw [extentsAt, List.map_nil, List.prod_nil] at hprod
    omega
  | cons d ds ih =>
    obtain ⟨-, hnodup⟩ := List.nodup_cons.mp hnodup
    have hpositive := hpos d List.mem_cons_self
    have hpos' : ∀ e ∈ ds, 0 < shape.extents e := fun e he => hpos e (List.mem_cons_of_mem _ he)
    rw [List.foldr_cons, fullStrideStep]
    rcases Nat.lt_or_ge (extentsAt shape ds).prod (2 ^ 63) with hsmall | hlarge
    -- the product gets too large in this turn, or it was before
    · obtain ⟨strides, hrest, -⟩ := foldr_fullStrideStep hnodup hpos' hsmall
      rw [hrest, Outcome.done_bind, ← prod_extentsAt_cons hpositive, checked_of_not]
      · rfl
      · intro hsize
        have hlt : ((extentsAt shape (d :: ds)).prod : Int) < 2 ^ 63 := hsize.2
        omega
    · rw [ih hpos' hnodup hlarge]
      rfl

/-- The sum over the dimensions is the position of the point in the grid. -/
theorem foldlM_srcOffStep {strides idx : Fin maxRank → Int} (hfits : ∀ d ∈ ds, BoxFits b shape d)
    (hnonneg : ∀ d ∈ ds, 0 ≤ idx d)
    (hstrides : ds.map strides = (rowMajor (extentsAt shape ds)).map Int.ofNat) {a : Int}
    (ha : 0 ≤ a)
    (hin : Within (ds.map fun d => (b.extents d).toNat) (indicesAt idx ds))
    (hlt : a + position (extentsAt shape ds) (selectAt b ds (indicesAt idx ds)) < 2 ^ 63) :
    ds.foldlM (srcOffStep b strides idx) a =
      .done (a + position (extentsAt shape ds) (selectAt b ds (indicesAt idx ds))) := by
  induction ds generalizing a with
  | nil => simp [position, extentsAt]
  | cons d ds ih =>
    have hfits' : ∀ e ∈ ds, BoxFits b shape e := fun e he => hfits e (List.mem_cons_of_mem _ he)
    have hd := hfits d List.mem_cons_self
    have hindex := hnonneg d List.mem_cons_self
    obtain ⟨hcell, hin⟩ := within_cons.mp hin
    have hbelow : (idx d).toNat < (b.extents d).toNat := hcell
    obtain ⟨hsteps, -⟩ := hd.index_le hindex (by omega)
    have hoffset := hd.offset_nonneg
    obtain ⟨hfirst, hrest⟩ := List.cons.inj hstrides
    have hstride : strides d = ((extentsAt shape ds).prod : Int) := hfirst
    have hblock : 1 ≤ (extentsAt shape ds).prod := by
      refine List.prod_pos_iff_forall_pos_nat.mpr fun e he => ?_
      obtain ⟨d', hd', rfl⟩ := List.mem_map.mp he
      have := (hfits' d' hd').extents_pos
      omega
    -- the position of the point is the block of its first index and the position therein
    have hposition : (position (extentsAt shape (d :: ds))
        (selectAt b (d :: ds) (indicesAt idx (d :: ds))) : Int) =
        (b.offsets d + idx d * b.strides d) * strides d +
          position (extentsAt shape ds) (selectAt b ds (indicesAt idx ds)) := by
      show ((((b.offsets d + ((idx d).toNat : Int) * b.strides d).toNat *
        (extentsAt shape ds).prod +
          position (extentsAt shape ds) (selectAt b ds (indicesAt idx ds)) : Nat)) : Int) = _
      rw [Int.toNat_of_nonneg hindex, Nat.cast_add, Nat.cast_mul, Int.toNat_of_nonneg (by omega),
        hstride]
    have hscaled : b.offsets d + idx d * b.strides d ≤
        (b.offsets d + idx d * b.strides d) * strides d := by
      rw [hstride]
      exact le_mul_of_one_le_right (by omega) (by exact_mod_cast hblock)
    rw [hposition] at hlt ⊢
    rw [List.foldlM_cons, srcOffStep, checked_of_isInt64 ⟨by omega, by omega⟩, Outcome.done_bind,
      checked_of_isInt64 ⟨by omega, by omega⟩, Outcome.done_bind,
      checked_of_isInt64 ⟨by omega, by omega⟩, Outcome.done_bind,
      checked_of_isInt64 ⟨by omega, by omega⟩, Outcome.done_bind,
      ih hfits' (fun e he => hnonneg e (List.mem_cons_of_mem _ he)) hrest (by omega) hin (by omega),
      Int.add_assoc]

end Box

/-! ### The gather loop -/

/-- The point that the box selects at its own indices `is`. -/
def select (b : Bbox) (is : List Nat) : List Nat := selectAt b (dims b.rank) is

/-- What the gather loop works on: a box that fits a grid of fewer than `2 ^ 63` points. -/
structure Gathers (shape : Shape) (b : Bbox) (strides : Fin maxRank → Int) : Prop where
  rank_eq : b.rank = shape.rank
  fits : ∀ d ∈ dims b.rank, BoxFits b shape d
  prod_lt : shape.extentList.prod < 2 ^ 63
  strides_eq : (dims b.rank).map strides = (rowMajor shape.extentList).map Int.ofNat

namespace Gathers

variable {shape : Shape} {b : Bbox} {strides idx : Fin maxRank → Int}

/-- The axes of the box are the axes of the shape. -/
theorem extents_eq (h : Gathers shape b strides) :
    extentsAt shape (dims b.rank) = shape.extentList := by
  rw [h.rank_eq]
  rfl

/-- A selected cell is inside. -/
theorem within_select (h : Gathers shape b strides) {is : List Nat} (his : Within b.extentList is) :
    Within shape.extentList (select b is) := by
  rw [← h.extents_eq]
  exact within_selectAt h.fits his

/-- `src_off` is the position of the point. -/
theorem srcOff_eq (h : Gathers shape b strides) (hnonneg : ∀ d ∈ dims b.rank, 0 ≤ idx d)
    (hin : Within b.extentList (indicesAt idx (dims b.rank))) :
    srcOff b b.rank strides idx =
        .done (position shape.extentList (select b (indicesAt idx (dims b.rank))) : Nat) ∧
      position shape.extentList (select b (indicesAt idx (dims b.rank))) < 2 ^ 63 := by
  have hsmall := (position_lt (h.within_select hin)).trans h.prod_lt
  have hsum := foldlM_srcOffStep (a := 0) h.fits hnonneg (by rw [h.extents_eq, h.strides_eq]) le_rfl
    hin (by rw [h.extents_eq, ← select]; omega)
  rw [h.extents_eq, Int.zero_add] at hsum
  exact ⟨hsum, hsmall⟩

variable {α : Type} {full : List α} {capacity n p : Nat} {out out' : List α}

/-- The loop is at the cell at position `p`, and there are `n` cells from there on. -/
structure AtCell (b : Bbox) (idx : Fin maxRank → Int) (p n : Nat) : Prop where
  total : p + n = b.extentList.prod
  nonneg : n ≠ 0 → ∀ d, 0 ≤ idx d
  within : n ≠ 0 → Within b.extentList (indicesAt idx (dims b.rank))
  position_eq : n ≠ 0 → position b.extentList (indicesAt idx (dims b.rank)) = p

/-- The loop goes to the next cell. -/
theorem AtCell.next (hfits : ∀ d ∈ dims b.rank, BoxFits b shape d)
    (h : AtCell b idx p (n + 1)) :
    AtCell b (increment ⟨b.rank, b.extents, b.strides⟩ idx) (p + 1) n := by
  let cells : Shape := ⟨b.rank, b.extents, b.strides⟩
  have hpos : ∀ d ∈ dims cells.rank, 0 < cells.extents d := fun d hd => (hfits d hd).extent_pos
  have htotal := h.total
  have hp := h.position_eq (Nat.succ_ne_zero n)
  have hcell : n ≠ 0 → (∀ d, 0 ≤ increment cells idx d) ∧
      Within b.extentList (indicesAt (increment cells idx) (dims b.rank)) ∧
      position b.extentList (indicesAt (increment cells idx) (dims b.rank)) =
        position b.extentList (indicesAt idx (dims b.rank)) + 1 := fun hn =>
    increment_cell hpos (h.nonneg (Nat.succ_ne_zero n)) (h.within (Nat.succ_ne_zero n)) (by
      show position b.extentList (indicesAt idx (dims b.rank)) + 1 < b.extentList.prod
      omega)
  exact ⟨by omega, fun hn => (hcell hn).1, fun hn => (hcell hn).2.1,
    fun hn => (hcell hn).2.2.trans (congrArg (· + 1) hp)⟩

/-- **The loop** delivers the points of the cells, when all of them are in the record … -/
theorem gatherLoop_eq (h : Gathers shape b strides) (hcapacity : b.extentList.prod * 4 ≤ capacity)
    (hpoints : ∀ is, Within b.extentList is →
      position shape.extentList (select b is) < full.length)
    (hcell : AtCell b idx p n) (hout : out.length = p) :
    ∃ out', gatherLoop full capacity b b.rank strides n idx out = .done out' ∧
      out'.map some = out.map some ++ ((cells b.extentList).drop p).map fun is =>
        full[position shape.extentList (select b is)]? := by
  induction n generalizing idx p out with
  | zero =>
    have hend : (cells b.extentList).length ≤ p := by
      rw [length_cells, ← hcell.total, Nat.add_zero]
    exact ⟨out, rfl, by rw [List.drop_of_length_le hend, List.map_nil, List.append_nil]⟩
  | succ n ih =>
    have hnonneg := hcell.nonneg (Nat.succ_ne_zero n)
    have hwithin := hcell.within (Nat.succ_ne_zero n)
    have htotal := hcell.total
    obtain ⟨hoff, hsmall⟩ := h.srcOff_eq (fun d _ => hnonneg d) hwithin
    have hpoint := hpoints _ hwithin
    have hlen : (out ++ [full[position shape.extentList
        (select b (indicesAt idx (dims b.rank)))]]).length = p + 1 := by
      rw [List.length_append, hout]
      rfl
    -- the rest of the odometer, from the next cell
    obtain ⟨out', hrest, hmap⟩ := ih (hcell.next h.fits) hlen
    refine ⟨out', ?_, ?_⟩
    · rw [gatherLoop, hoff, Outcome.done_bind, toSize_of_lt (by omega) (by omega),
        Int.toNat_natCast, List.getElem?_eq_getElem hpoint]
      show (do Outcome.expect _; _) = _
      rw [Outcome.expect_of (by omega), Outcome.done_bind]
      exact hrest
    · rw [hmap, ← hcell.position_eq (Nat.succ_ne_zero n), drop_cells hwithin, List.map_cons,
        List.getElem?_eq_getElem hpoint, List.map_append, List.append_assoc]
      rfl

/-- … and otherwise does not come to an end. -/
theorem lt_of_gatherLoop (h : Gathers shape b strides) (hcell : AtCell b idx p n)
    (hloop : gatherLoop full capacity b b.rank strides n idx out = .done out') {is : List Nat}
    (his : Within b.extentList is) (hp : p ≤ position b.extentList is) :
    position shape.extentList (select b is) < full.length := by
  induction n generalizing idx p out with
  | zero =>
    have hlt := position_lt his
    have htotal := hcell.total
    omega
  | succ n ih =>
    have hnonneg := hcell.nonneg (Nat.succ_ne_zero n)
    have hwithin := hcell.within (Nat.succ_ne_zero n)
    obtain ⟨hoff, hsmall⟩ := h.srcOff_eq (fun d _ => hnonneg d) hwithin
    rw [gatherLoop, hoff, Outcome.done_bind, toSize_of_lt (by omega) (by omega),
      Int.toNat_natCast, Outcome.bind_eq_done] at hloop
    obtain ⟨value, hvalue, hloop⟩ := hloop
    rw [Outcome.bind_eq_done] at hloop
    obtain ⟨-, -, hrest⟩ := hloop
    rcases Nat.eq_or_lt_of_le hp with heq | hlt
    -- the cell of this turn, whose point was read
    · have hsame := position_inj hwithin his ((hcell.position_eq (Nat.succ_ne_zero n)).trans heq)
      rw [← hsame]
      by_contra hout
      rw [List.getElem?_eq_none (by omega)] at hvalue
      cases hvalue
    · exact ih (hcell.next h.fits) hrest hlt

end Gathers

/-! ### What is delivered -/

section Deliver

variable {α : Type} {shape : Shape} {name : String} {b : Bbox} {full : List α}
  {capacity elems : Nat}

theorem elements_spec
    (h : selectedElements shape full.length capacity name (some b) = .done elems) :
    b.rank = shape.rank ∧ (∀ d ∈ dims b.rank, BoxFits b shape d) ∧
      elems = b.extentList.prod % 2 ^ 64 ∧ u64 (elems * 4) ≤ capacity := by
  simp only [selectedElements, Outcome.bind_eq_done, Outcome.throwIf_eq_done, Outcome.pure_eq,
    Outcome.done.injEq] at h
  obtain ⟨-, hrank, n, hbox, -, hcapacity, rfl⟩ := h
  have hrank := not_not.mp hrank
  obtain ⟨hfits, rfl⟩ := foldlM_boxStep (c := 1) hbox
  rw [← hrank] at hfits hcapacity ⊢
  rw [Nat.one_mul] at hcapacity ⊢
  exact ⟨rfl, hfits, rfl, by exact not_lt.mp hcapacity⟩

/-- A box that fits a grid has strides to gather by, unless the grid has too many points. -/
theorem exists_gathers (hrank : b.rank = shape.rank) (hfits : ∀ d ∈ dims b.rank, BoxFits b shape d)
    (hprod : shape.extentList.prod < 2 ^ 63) :
    ∃ strides, fullStrides shape = .done strides ∧ Gathers shape b strides := by
  have hpos : ∀ d ∈ dims shape.rank, 0 < shape.extents d := fun d hd =>
    (hfits d (hrank ▸ hd)).extents_pos
  obtain ⟨strides, hfold, hmap⟩ := foldr_fullStrideStep (nodup_dims shape.rank) hpos hprod
  refine ⟨strides, ?_, hrank, hfits, hprod, by rw [hrank]; exact hmap⟩
  rw [fullStrides, hfold, Outcome.done_bind, Outcome.pure_eq]

/-- The strides of a shape that is too large overflow. -/
theorem fullStrides_undefined (hrank : b.rank = shape.rank)
    (hfits : ∀ d ∈ dims b.rank, BoxFits b shape d) (hprod : 2 ^ 63 ≤ shape.extentList.prod) :
    fullStrides shape = .undefined := by
  have hpos : ∀ d ∈ dims shape.rank, 0 < shape.extents d := fun d hd =>
    (hfits d (hrank ▸ hd)).extents_pos
  rw [fullStrides, foldr_fullStrideStep_undefined hpos (nodup_dims shape.rank) hprod]
  rfl

namespace Gathers

variable {strides : Fin maxRank → Int}

/-- A box that is gathered is not empty. -/
theorem extentList_pos (h : Gathers shape b strides) : ∀ e ∈ b.extentList, 0 < e :=
  boxExtents_pos h.fits

/-- The loop begins at the first cell. -/
theorem atCell_zero (h : Gathers shape b strides) :
    AtCell b (fun _ => 0) 0 b.extentList.prod := by
  have hzeros : indicesAt (fun _ => 0) (dims b.rank) = b.extentList.map fun _ => 0 := by
    rw [indicesAt, Bbox.extentList, List.map_map]
    rfl
  exact ⟨Nat.zero_add _, fun _ _ => le_rfl, fun _ => hzeros ▸ within_zeros h.extentList_pos,
    fun _ => hzeros ▸ position_zeros _⟩

/-- No point of the box is behind the last one. -/
theorem position_le_last (h : Gathers shape b strides) {is : List Nat}
    (his : Within b.extentList is) :
    position shape.extentList (select b is) ≤
      position shape.extentList (select b (last b.extentList)) := by
  refine position_le_position (List.forall₂_refl _) ?_
  rw [select, select, Bbox.extentList, selectAt_last h.fits]
  exact selectAt_le_last h.fits his

/-- The elements of the box are no more than the points up to the last one. -/
theorem prod_le_last (h : Gathers shape b strides) :
    b.extentList.prod ≤ position shape.extentList (select b (last b.extentList)) + 1 := by
  have hle := prod_le_position h.fits
  rw [h.extents_eq] at hle
  rw [select, Bbox.extentList, selectAt_last h.fits]
  exact hle

/-- **What is delivered** of a record that has the last point of the box. -/
theorem deliver_eq (h : Gathers shape b strides) (hstrides : fullStrides shape = .done strides)
    (hlast : position shape.extentList (select b (last b.extentList)) < full.length)
    (hcapacity : b.extentList.prod * 4 ≤ capacity) :
    ∃ out, deliver shape full capacity b.extentList.prod (some b) = .done out ∧
      out.map some = (cells b.extentList).map fun is =>
        full[position shape.extentList (select b is)]? := by
  obtain ⟨out, hloop, hmap⟩ := h.gatherLoop_eq hcapacity
    (fun is his => (h.position_le_last his).trans_lt hlast) h.atCell_zero
    (show ([] : List α).length = 0 from rfl)
  refine ⟨out, ?_, hmap⟩
  rw [deliver, hstrides, Outcome.done_bind, ← h.rank_eq]
  exact hloop

end Gathers

end Deliver

/-! ### Results -/

section Reading

variable {α : Type} {r : Reader} {unpack : Unpack α} {file : Option GribFile} {name : String}
  {t : Int} {entry : GribFieldIndex} {full : List α} {capacity elems : Nat} {b : Bbox}

/-- A record is unpacked from the bytes at its place, and has the points that the library says. -/
theorem unpackRecord_eq_done {loc : GribRecordLocation}
    (h : r.unpackRecord unpack file name loc = .done full) :
    ∃ fp cgrib gfld seekFailed shortRead, file = some fp ∧
      readBytes fp loc.offset loc.length seekFailed shortRead = .ok cgrib ∧
      unpack cgrib loc.fieldNumber = (0, some gfld) ∧ 0 < gfld.ngrdpts ∧
      full.length = gfld.ngrdpts.toNatClampNeg ∧ full.length < 2 ^ 61 := by
  simp only [Reader.unpackRecord, Outcome.bind_eq_done, Outcome.throwIf_eq_done,
    Outcome.orThrow_eq_done, Outcome.expect_eq_done, Outcome.pure_eq, Outcome.done.injEq] at h
  obtain ⟨fp, hfile, cgrib, hread, gfld, hfound, -, hpos, fld, -, -, hsize, -, hfld, rfl⟩ := h
  -- as many values are copied as the message has grid points
  have hlen : (fld.take gfld.ngrdpts.toNatClampNeg).length = gfld.ngrdpts.toNatClampNeg := by
    rw [List.length_take, Nat.min_eq_left hfld]
  refine ⟨fp, cgrib, gfld, _, _, hfile, Outcome.ofExcept_eq_done.mp hread, ?_, Int64.not_le.mp hpos,
    hlen, by omega⟩
  split at hfound
  · next hret => exact Prod.ext hret hfound
  · cases hfound

/-- A decoded record has points, and no more than a vector takes. -/
theorem length_of_decode (h : r.decode unpack file name t = .done (entry, full)) :
    0 < full.length ∧ full.length < 2 ^ 61 := by
  simp only [Reader.decode, Outcome.bind_eq_done, Outcome.pure_eq, Outcome.done.injEq,
    Prod.mk.injEq] at h
  obtain ⟨p, -, out, hunpack, -, rfl⟩ := h
  obtain ⟨-, -, gfld, -, -, -, -, -, hpos, hlen, hlt⟩ := unpackRecord_eq_done hunpack
  have hpoints := (Int64.toNatClampNeg_pos_iff gfld.ngrdpts).mpr hpos
  exact ⟨by omega, hlt⟩

/-- The extents of a grid. -/
theorem extentList_grid (nj ni : Int) : (grid nj ni).extentList = [nj.toNat, ni.toNat] := rfl

/-- The extents of a row. -/
theorem extentList_row (n : Int) : (row n).extentList = [n.toNat] := rfl

/-- `read`, with the record that it decodes. -/
theorem read_eq (h : r.decode unpack file name t = .done (entry, full)) (bbox : Option Bbox) :
    r.read unpack file capacity name t bbox = do
      let elems ← selectedElements (entry.decodedShape full.length) full.length capacity name bbox
      let out ← deliver (entry.decodedShape full.length) full capacity elems bbox
      return (out, u64 (elems * 4)) := by
  rw [Reader.read, h]
  rfl

/-- The whole record, in a buffer that takes it. -/
theorem read_whole (h : r.decode unpack file name t = .done (entry, full))
    (hcapacity : full.length * 4 ≤ capacity) :
    r.read unpack file capacity name t none = .done (full, full.length * 4) := by
  have hlen := (length_of_decode h).2
  have hwrap : u64 (full.length * 4) = full.length * 4 := Nat.mod_eq_of_lt (by omega)
  rw [read_eq h, selectedElements, Outcome.throwIf_of_not (by omega)]
  simp only [Outcome.done_bind, Outcome.pure_eq, deliver, hwrap]

/-- A box whose last point is in the record is delivered. -/
theorem read_box (h : r.decode unpack file name t = .done (entry, full))
    (haccept : selectedElements (entry.decodedShape full.length) full.length capacity name
      (some b) = .done elems)
    (hprod : (entry.decodedShape full.length).extentList.prod < 2 ^ 63)
    (hlast : position (entry.decodedShape full.length).extentList (select b (last b.extentList)) <
      full.length) :
    ∃ out, r.read unpack file capacity name t (some b) = .done (out, b.extentList.prod * 4) ∧
      out.map some = (cells b.extentList).map fun is =>
        full[position (entry.decodedShape full.length).extentList (select b is)]? := by
  obtain ⟨hrank, hfits, helems, hcapacity⟩ := elements_spec haccept
  obtain ⟨strides, hstrides, hgathers⟩ := exists_gathers hrank hfits hprod
  -- the box has no more elements than the record has points, so nothing wraps around
  have hcount := hgathers.prod_le_last
  have hlen := (length_of_decode h).2
  rw [Nat.mod_eq_of_lt (by omega)] at helems
  subst helems
  have hwrap : u64 (b.extentList.prod * 4) = b.extentList.prod * 4 := Nat.mod_eq_of_lt (by omega)
  rw [hwrap] at hcapacity
  obtain ⟨out, hdeliver, hmap⟩ := hgathers.deliver_eq hstrides hlast hcapacity
  refine ⟨out, ?_, hmap⟩
  rw [read_eq h, haccept, Outcome.done_bind, hdeliver, Outcome.done_bind, hwrap, Outcome.pure_eq]

/-- A grid with as many points as the record has. -/
theorem prod_decodedShape {n : Nat} (hpoints : (n : Int) = entry.nj.toInt * entry.ni.toInt) :
    (entry.decodedShape n).extentList.prod = n := by
  unfold GribFieldIndex.decodedShape
  split
  · next hnj =>
    rw [Int64.lt_iff_toInt_lt, Int64.toInt_one] at hnj
    -- with several rows, a row that was negative would make the product negative
    have hni : 0 ≤ entry.ni.toInt := by
      by_contra hneg
      have := mul_neg_of_pos_of_neg (show 0 < entry.nj.toInt by omega) (not_le.mp hneg)
      omega
    obtain ⟨nj, hnj'⟩ := Int.eq_ofNat_of_zero_le (show 0 ≤ entry.nj.toInt by omega)
    obtain ⟨ni, hni'⟩ := Int.eq_ofNat_of_zero_le hni
    rw [hnj', hni', ← Nat.cast_mul, Nat.cast_inj] at hpoints
    rw [extentList_grid, hnj', hni', hpoints]
    simp
  -- one row has all the points
  · simp [extentList_row]

/-- **A sub-region is a slice.** For a record with as many points as its index entry says, a box
that `read` accepts selects, in row-major order, the points of the full read at the sums of the
selected indices times the row-major strides. -/
theorem subset_is_slice (hdecode : r.decode unpack file name t = .done (entry, full))
    (hpoints : (full.length : Int) = entry.nj.toInt * entry.ni.toInt)
    (haccept : selectedElements (entry.decodedShape full.length) full.length capacity name
      (some b) = .done elems) :
    ∃ out, r.read unpack file capacity name t (some b) = .done (out, 4 * b.extentList.prod) ∧
      out.length = b.extentList.prod ∧
      ∀ wide, full.length * 4 ≤ wide → ∃ whole,
        r.read unpack file wide name t none = .done (whole, full.length * 4) ∧
        ∀ is, Within b.extentList is → ∃ value, out[position b.extentList is]? = some value ∧
          whole[(offset (select b is) ((rowMajor (entry.decodedShape full.length).extentList).map
            Int.ofNat)).toNat]? = some value := by
  obtain ⟨hrank, hfits, -, -⟩ := elements_spec haccept
  have hprod := prod_decodedShape hpoints
  have hsize := (length_of_decode hdecode).2
  obtain ⟨strides, -, hgathers⟩ := exists_gathers hrank hfits (by rw [hprod]; omega)
  -- every point of the box is a point of the grid, and so of the record
  have hwithin : ∀ is, Within b.extentList is →
      Within (entry.decodedShape full.length).extentList (select b is) := fun is his =>
    hgathers.within_select his
  have hlast := position_lt (hwithin _ (within_last hgathers.extentList_pos))
  rw [hprod] at hlast
  obtain ⟨out, hread, hmap⟩ := read_box hdecode haccept (by rw [hprod]; omega) hlast
  have hlength : out.length = b.extentList.prod := by
    simpa [length_cells] using congrArg List.length hmap
  refine ⟨out, by rw [hread, Nat.mul_comm], hlength, fun wide hwide => ?_⟩
  refine ⟨full, read_whole hdecode hwide, fun is his => ?_⟩
  have hpoint := position_lt (hwithin is his)
  rw [hprod] at hpoint
  have hcell := congrArg (·[position b.extentList is]?) hmap
  simp only [List.getElem?_map, getElem?_cells his, Option.map_some,
    List.getElem?_eq_getElem hpoint] at hcell
  obtain ⟨value, hvalue, hsome⟩ := Option.map_eq_some_iff.mp hcell
  refine ⟨value, hvalue, ?_⟩
  rw [offset_rowMajor (hwithin is his), Int.toNat_natCast, List.getElem?_eq_getElem hpoint]
  exact hsome.symm

/-- A read of the described variable stays inside the record and is of the selected size. -/
structure ReadsInside (r : Reader) (unpack : Unpack α) (file : Option GribFile) (capacity : Nat)
    (name : String) (t : Int) (bbox : Option Bbox) (info : VariableInfo) (entry : GribFieldIndex)
    (full : List α) : Prop where
  /-- Every `src_off` is the place of a point. -/
  inside : ∀ b ∈ bbox, ∃ strides, fullStrides (entry.decodedShape full.length) = .done strides ∧
    ∀ idx : Fin maxRank → Int, (∀ d ∈ dims b.rank, 0 ≤ idx d) →
      Within b.extentList (indicesAt idx (dims b.rank)) →
      ∃ off, srcOff b b.rank strides idx = .done off ∧ 0 ≤ off ∧ off < full.length
  used : ∃ out, r.read unpack file capacity name t bbox =
    .done (out, 4 * (selectedExtents info.shape bbox).prod)

/-- The record decoded has the points that are asked for: all those of the described shape, or those
up to the last one of a box in a described grid, which then has fewer than `2 ^ 63` points. -/
def Covered (shape : Shape) (ngrdpts : Nat) : Option Bbox → Prop
  | none => shape.extentList.prod = ngrdpts
  | some b => shape.rank = 2 → shape.extentList.prod < 2 ^ 63 ∧
      position shape.extentList (select b (last b.extentList)) < ngrdpts

/-- What is described is the index entry of the record. -/
theorem shape_of_describe {info : VariableInfo} (hinfo : r.describeVariable name = some info)
    (hdecode : r.decode unpack file name t = .done (entry, full)) : info.shape = entry.shape := by
  simp only [Reader.decode, Reader.locate, Outcome.bind_eq_done, Outcome.pure_eq,
    Outcome.done.injEq, Prod.mk.injEq] at hdecode
  obtain ⟨p, ⟨-, -, -, -, -, -, -, -, loc, -, -, -, rfl⟩, -, -, rfl, rfl⟩ := hdecode
  unfold Reader.describeVariable at hinfo
  split at hinfo
  · obtain ⟨entry, hlookup, hinfo⟩ := Option.bind_eq_some_iff.mp hinfo
    split at hinfo
    · cases hinfo
    · obtain rfl := Option.some.inj hinfo
      rw [hlookup]
      rfl
  · cases hinfo

/-- A read that comes to an end has read the last point of its box. -/
theorem covers_of_read (hdecode : r.decode unpack file name t = .done (entry, full))
    (haccept : selectedElements (entry.decodedShape full.length) full.length capacity name
      (some b) = .done elems)
    (hread : ∃ p, r.read unpack file capacity name t (some b) = .done p) :
    (entry.decodedShape full.length).extentList.prod < 2 ^ 63 ∧
      position (entry.decodedShape full.length).extentList (select b (last b.extentList)) <
        full.length := by
  obtain ⟨hrank, hfits, helems, -⟩ := elements_spec haccept
  obtain ⟨p, hread⟩ := hread
  rw [read_eq hdecode, haccept, Outcome.done_bind, Outcome.bind_eq_done] at hread
  obtain ⟨out, hdeliver, -⟩ := hread
  have hprod : (entry.decodedShape full.length).extentList.prod < 2 ^ 63 := by
    -- the strides of a larger record are undefined
    by_contra hlarge
    rw [deliver, fullStrides_undefined hrank hfits (not_lt.mp hlarge)] at hdeliver
    cases hdeliver
  obtain ⟨strides, hstrides, hgathers⟩ := exists_gathers hrank hfits hprod
  -- the last cell of the box is read as well
  have hlastcell := within_last hgathers.extentList_pos
  have hcount := hgathers.prod_le_last
  have hsmall := position_lt (hgathers.within_select hlastcell)
  rw [Nat.mod_eq_of_lt (by omega)] at helems
  rw [deliver, hstrides, Outcome.done_bind, ← hgathers.rank_eq, helems] at hdeliver
  exact ⟨hprod, hgathers.lt_of_gatherLoop hgathers.atCell_zero hdeliver hlastcell (Nat.zero_le _)⟩

/-- A box in a row is covered by any row it fits in. -/
theorem covered_iff (hdecode : r.decode unpack file name t = .done (entry, full))
    (haccept : selectedElements (entry.decodedShape full.length) full.length capacity name
      (some b) = .done elems) :
    Covered entry.shape full.length (some b) ↔
      (entry.decodedShape full.length).extentList.prod < 2 ^ 63 ∧
        position (entry.decodedShape full.length).extentList (select b (last b.extentList)) <
          full.length := by
  obtain ⟨hrank, hfits, -, -⟩ := elements_spec haccept
  have hlen := (length_of_decode hdecode).2
  by_cases hnj : 1 < entry.nj
  -- a grid of rows is described as it is decoded
  · have hdecoded : entry.decodedShape full.length = entry.shape := by
      rw [GribFieldIndex.decodedShape, GribFieldIndex.shape, if_pos hnj, if_pos hnj]
    rw [hdecoded]
    have htwo : entry.shape.rank = 2 := by
      rw [GribFieldIndex.shape, if_pos hnj]
      rfl
    exact ⟨fun h => h htwo, fun h _ => h⟩
  -- a single row is as long as what was decoded, so every point of it is there
  · have hone : entry.shape.rank ≠ 2 := by
      rw [GribFieldIndex.shape, if_neg hnj]
      show (1 : Int) ≠ 2
      decide
    have hprod : (entry.decodedShape full.length).extentList.prod = full.length := by
      rw [GribFieldIndex.decodedShape, if_neg hnj]
      simp [extentList_row]
    obtain ⟨strides, -, hgathers⟩ := exists_gathers hrank hfits (by omega)
    have hpoint := position_lt (hgathers.within_select (within_last hgathers.extentList_pos))
    exact ⟨fun _ => ⟨by omega, by omega⟩, fun _ htwo => absurd htwo hone⟩

/-- **Reads stay inside the record** decoded, and are of the described size, exactly when the record
has the points that are asked for. -/
theorem readsInside_iff {info : VariableInfo} {bbox : Option Bbox}
    (hinfo : r.describeVariable name = some info)
    (hdecode : r.decode unpack file name t = .done (entry, full))
    (haccept : selectedElements (entry.decodedShape full.length) full.length capacity name bbox =
      .done elems) :
    ReadsInside r unpack file capacity name t bbox info entry full ↔
      Covered info.shape full.length bbox := by
  have hshape := shape_of_describe hinfo hdecode
  cases bbox with
  | none =>
    -- the whole record: all that was decoded is delivered, so only the sizes are in question
    have hcapacity : ¬ capacity < u64 (full.length * 4) := by
      simp only [selectedElements, Outcome.bind_eq_done, Outcome.throwIf_eq_done] at haccept
      exact haccept.choose_spec.1
    have hlen := (length_of_decode hdecode).2
    have hwrap : u64 (full.length * 4) = full.length * 4 := Nat.mod_eq_of_lt (by omega)
    have hread : r.read unpack file capacity name t none = .done (full, full.length * 4) :=
      read_whole hdecode (by omega)
    constructor
    · rintro ⟨-, out, hused⟩
      have hsize := (Prod.mk.inj (Outcome.done.inj (hread.symm.trans hused))).2
      show info.shape.extentList.prod = full.length
      simp only [selectedExtents] at hsize
      omega
    · intro hcovered
      have hcovered : info.shape.extentList.prod = full.length := hcovered
      exact ⟨fun b hb => (by cases hb), full,
        by rw [hread, selectedExtents, hcovered, Nat.mul_comm]⟩
  | some b =>
    -- a box is delivered packed, so only the reads of the source are
    rw [hshape, covered_iff hdecode haccept]
    constructor
    · rintro ⟨-, out, hread⟩
      exact covers_of_read hdecode haccept ⟨_, hread⟩
    · rintro ⟨hprod, hlast⟩
      obtain ⟨hrank, hfits, -, -⟩ := elements_spec haccept
      obtain ⟨strides, hstrides, hgathers⟩ := exists_gathers hrank hfits hprod
      obtain ⟨out, hread, -⟩ := read_box hdecode haccept hprod hlast
      refine ⟨fun b' hb' => ?_, out, by rw [hread, Nat.mul_comm]; rfl⟩
      obtain rfl := Option.some.inj hb'
      refine ⟨strides, hstrides, fun idx hnonneg hin => ?_⟩
      have hle := hgathers.position_le_last hin
      exact ⟨_, (hgathers.srcOff_eq hnonneg hin).1, by omega, by omega⟩

end Reading

deriving instance DecidableEq for GribFieldIndex

/-- Messages of one field that have `Ni` and `Nj` in octets 17 and 18 and a point in each octet
behind them. -/
def gridG2c : G2c (List UInt8) where
  pack d n t := (d :: n :: t).map fun x => UInt8.ofNat x.toNatClampNeg
  info m := (0, Int64.ofNat (m.getD 6 0).toNat, 1)
  getfld m n :=
    let ni := Int64.ofNat (m.getD 16 0).toNat
    let nj := Int64.ofNat (m.getD 17 0).toNat
    if n = 1 then
      (0, some
        { ipdtnum := 0
          ipdtmpl := some []
          igdtmpl := some [0, 0, 0, 0, 0, 0, 0, ni, nj]
          ngrdpts := ni * nj })
    else (6, none)

def gridUnpack : Unpack UInt8 := fun m n =>
  let points := (m.getD 16 0).toNat * (m.getD 17 0).toNat
  if n = 1 then (0, some ⟨Int64.ofNat points, some ((m.drop 18).take points)⟩) else (6, none)

/-- A field on three rows of two points, and the same field on two rows of two points. -/
def twoGrids : GribFile where
  bytes :=
    [0x47, 0x52, 0x49, 0x42, 0, 0, 0, 2, 0, 0, 0, 0, 0, 0, 0, 28, 2, 3, 1, 2, 3, 4, 5, 6,
      0x37, 0x37, 0x37, 0x37,
      0x47, 0x52, 0x49, 0x42, 0, 0, 0, 2, 0, 0, 0, 0, 0, 0, 0, 26, 2, 2, 7, 8, 9, 10,
      0x37, 0x37, 0x37, 0x37]
  size_lt := by decide

/-- What the driver knows of the two, and what it describes. -/
def twoGridsEntry : GribFieldIndex := ⟨2, 3, 6, [⟨0, 28, 1⟩, ⟨28, 26, 1⟩]⟩

def twoGridsInfo : VariableInfo := ⟨some .f32, grid 3 2, 2⟩

/-- The second column of three rows. -/
def secondColumn : Bbox :=
  ⟨2, fun d => if d.val = 1 then 1 else 0, fun d => if d.val = 0 then 3 else 1, fun _ => 1⟩

theorem secondColumn_accepted (n : Nat) : selectedElements (twoGridsEntry.decodedShape n) n 24
    "d0_c0_n0_s0_l0" (some secondColumn) = .done 3 := by
  have hgrid : twoGridsEntry.decodedShape n = grid 3 2 := rfl
  rw [hgrid]
  rfl

theorem subset_of_second_column :
    ∃ index, scanFile gridG2c seekIndicator "f" 55 (some twoGrids) = some (.ok index) ∧
      ∃ out, (⟨true, true, "f", index⟩ : Reader).read gridUnpack (some twoGrids) 24
          "d0_c0_n0_s0_l0" 0 (some secondColumn) = .done (out, 4 * secondColumn.extentList.prod) ∧
        out.length = 3 := by
  obtain ⟨index, hrun, hdecode⟩ : ∃ index,
      scanFile gridG2c seekIndicator "f" 55 (some twoGrids) = some (.ok index) ∧
      (⟨true, true, "f", index⟩ : Reader).decode gridUnpack (some twoGrids) "d0_c0_n0_s0_l0" 0 =
        .done (twoGridsEntry, [1, 2, 3, 4, 5, 6]) := ⟨_, rfl, by decide +kernel⟩
  obtain ⟨out, hread, hlength, -⟩ := subset_is_slice hdecode (by decide) (secondColumn_accepted 6)
  exact ⟨index, hrun, out, hread, hlength⟩

theorem readsInside_of_second_column :
    ∃ index, scanFile gridG2c seekIndicator "f" 55 (some twoGrids) = some (.ok index) ∧
      ReadsInside ⟨true, true, "f", index⟩ gridUnpack (some twoGrids) 24 "d0_c0_n0_s0_l0" 0
        (some secondColumn) twoGridsInfo twoGridsEntry [1, 2, 3, 4, 5, 6] := by
  obtain ⟨index, hrun, hinfo, hdecode⟩ : ∃ index,
      scanFile gridG2c seekIndicator "f" 55 (some twoGrids) = some (.ok index) ∧
      (⟨true, true, "f", index⟩ : Reader).describeVariable "d0_c0_n0_s0_l0" = some twoGridsInfo ∧
      (⟨true, true, "f", index⟩ : Reader).decode gridUnpack (some twoGrids) "d0_c0_n0_s0_l0" 0 =
        .done (twoGridsEntry, [1, 2, 3, 4, 5, 6]) :=
    ⟨_, rfl, by decide +kernel, by decide +kernel⟩
  exact ⟨index, hrun, (readsInside_iff hinfo hdecode (secondColumn_accepted 6)).mpr
    fun _ => ⟨by decide, by decide⟩⟩

/-- Of the second record, with four points, the second column has no third row, and the whole of it
is not the six points described. -/
theorem second_grid_overrun :
    ∃ index, scanFile gridG2c seekIndicator "f" 55 (some twoGrids) = some (.ok index) ∧
      (⟨true, true, "f", index⟩ : Reader).describeVariable "d0_c0_n0_s0_l0" = some twoGridsInfo ∧
      (⟨true, true, "f", index⟩ : Reader).decode gridUnpack (some twoGrids) "d0_c0_n0_s0_l0" 1 =
        .done (twoGridsEntry, [7, 8, 9, 10]) ∧
      selectedElements (twoGridsEntry.decodedShape 4) 4 24 "d0_c0_n0_s0_l0" (some secondColumn) =
        .done 3 ∧
      ¬ ReadsInside ⟨true, true, "f", index⟩ gridUnpack (some twoGrids) 24 "d0_c0_n0_s0_l0" 1
        (some secondColumn) twoGridsInfo twoGridsEntry [7, 8, 9, 10] ∧
      ¬ ReadsInside ⟨true, true, "f", index⟩ gridUnpack (some twoGrids) 24 "d0_c0_n0_s0_l0" 1
        none twoGridsInfo twoGridsEntry [7, 8, 9, 10] := by
  obtain ⟨index, hrun, hinfo, hdecode, hbox, hwhole⟩ : ∃ index,
      scanFile gridG2c seekIndicator "f" 55 (some twoGrids) = some (.ok index) ∧
      (⟨true, true, "f", index⟩ : Reader).describeVariable "d0_c0_n0_s0_l0" = some twoGridsInfo ∧
      (⟨true, true, "f", index⟩ : Reader).decode gridUnpack (some twoGrids) "d0_c0_n0_s0_l0" 1 =
        .done (twoGridsEntry, [7, 8, 9, 10]) ∧
      (⟨true, true, "f", index⟩ : Reader).read gridUnpack (some twoGrids) 24 "d0_c0_n0_s0_l0" 1
        (some secondColumn) = .undefined ∧
      (⟨true, true, "f", index⟩ : Reader).read gridUnpack (some twoGrids) 24 "d0_c0_n0_s0_l0" 1
        none = .done ([7, 8, 9, 10], 16) :=
    ⟨_, rfl, by decide +kernel, by decide +kernel, by decide +kernel, by decide +kernel⟩
  refine ⟨index, hrun, hinfo, hdecode, secondColumn_accepted 4, fun h => ?_, fun h => ?_⟩
  -- the box of the first grid is read out of the second, past its end
  · obtain ⟨out, hread⟩ := h.used
    cases hbox.symm.trans hread
  · obtain ⟨out, hread⟩ := h.used
    -- the whole record is 16 bytes, not the 24 that were described
    have hused := (Prod.mk.inj (Outcome.done.inj (hwhole.symm.trans hread))).2
    revert hused
    decide

end Amio.Grib2
