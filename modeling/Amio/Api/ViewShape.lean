import Amio.Drivers.Packing
import Amio.Prefetch.Queue

/-!
# The shape of a view

A successful `read` records a shape beside the buffer it hands out. A bounding box and a shape are
laid out alike, but the strides of a box are steps in the stored variable and those of a shape are
distances in memory. `read` copies the one into the other, while the drivers deliver the selection
packed. So the shape of a view describes its buffer only when the box happens to have the row-major
strides of its own extents (`viewShape_describes_iff`).
-/

namespace Amio

open RowMajor

/-- The extents of the dimensions in use. -/
def Bbox.extentList (b : Bbox) : List Nat := (dims b.rank).map fun d => (b.extents d).toNat

/-- The extents that a read selects: those of the box, or else those of the variable. -/
def selectedExtents (shape : Shape) : Option Bbox → List Nat
  | some b => b.extentList
  | none => shape.extentList

@[simp] theorem selectedExtents_some (shape : Shape) (b : Bbox) :
    selectedExtents shape (some b) = b.extentList := rfl

@[simp] theorem selectedExtents_none (shape : Shape) :
    selectedExtents shape none = shape.extentList := rfl

/-- The driver's box has the extents of the host's. -/
theorem Bbox.extentList_toDriver (b : Bbox) : b.toDriver.extentList = b.extentList := by
  refine List.map_congr_left fun d hd => ?_
  have hin : (d : Int) < b.rank := mem_dims.mp hd
  show (if (d : Int) < b.rank then b.extents d else 0).toNat = _
  rw [if_pos hin]

/-- The drivers are given the extents of the box. -/
theorem selectedExtents_toDriver (shape : Shape) (bbox : Option Bbox) :
    selectedExtents shape (bbox.map Bbox.toDriver) = selectedExtents shape bbox := by
  cases bbox with
  | none => rfl
  | some b => exact b.extentList_toDriver

/-- The steps of the dimensions in use. -/
def Bbox.strideList (b : Bbox) : List Int := (dims b.rank).map b.strides

/-- A loop over `k` dimensions visits the first `k`. -/
theorem dims_eq_take : ∀ k ≤ maxRank, dims k = (List.finRange maxRank).take k := by decide

theorem getElem?_dims {k j : Nat} (hk : k ≤ maxRank) (hj : j < k) :
    (dims k)[j]? = some ⟨j, hj.trans_le hk⟩ := by
  rw [dims_eq_take k hk, List.getElem?_take_of_lt hj]
  simp [List.getElem?_eq_some_iff]
  omega

/-- As many axes as the rank says. -/
theorem length_dims {k : Nat} (hk : k ≤ maxRank) : (dims k).length = k := by
  rw [dims_eq_take k hk, List.length_take, List.length_finRange]
  exact Nat.min_eq_left hk

/-- There are at most `maxRank` axes. -/
theorem length_dims_le (rank : Int) : (dims rank).length ≤ maxRank :=
  (List.length_filter_le _ _).trans_eq List.length_finRange

/-- The entry of the extents at a dimension in use. -/
theorem getElem?_extentList {shape : Shape} {k j : Nat} (hrank : shape.rank = k) (hk : k ≤ maxRank)
    (hj : j < k) :
    shape.extentList[j]? = some (shape.extents ⟨j, hj.trans_le hk⟩).toNat := by
  rw [Shape.extentList, hrank, List.getElem?_map, getElem?_dims hk hj]
  rfl

/-- The shape that a driver describes: the extents from dimension `start` on. -/
theorem extentList_described (extents : List Nat) (start : Nat) {rank : Nat} (hle : rank ≤ maxRank)
    (hrank : rank + start = extents.length) (strides : Fin maxRank → Int) :
    Shape.extentList ⟨rank, fun k => ((extents[(k : Nat) + start]?).getD 0 : Nat), strides⟩ =
      extents.drop start := by
  refine List.ext_getElem? fun j => ?_
  rw [Shape.extentList, List.getElem?_map, List.getElem?_drop]
  -- an axis of the description, or beyond them all
  rcases Nat.lt_or_ge j rank with hlt | hge
  · have hin : j + start < extents.length := by omega
    rw [getElem?_dims hle hlt, Option.map_some, Nat.add_comm start j]
    simp [hin]
  · have hdims : (dims rank).length ≤ j := by
      rw [length_dims hle]
      exact hge
    rw [List.getElem?_eq_none hdims, List.getElem?_eq_none (by omega)]
    rfl

/-- The loop computes the product, modulo `2 ^ 64`. -/
theorem foldl_u64 (l : List Nat) (n : Nat) :
    l.foldl (fun n e => u64 (n * e)) (n % 2 ^ 64) = n * l.prod % 2 ^ 64 := by
  induction l generalizing n with
  | nil => simp
  | cons e l ih =>
    rw [List.foldl_cons, u64, Nat.mod_mul_mod, ih, List.prod_cons, Nat.mul_assoc]

/-- The byte count of a block, in the machine's arithmetic. -/
theorem u64_foldl_mul (l : List Nat) (m : Nat) :
    u64 (l.foldl (fun n e => u64 (n * e)) 1 * m) = u64 (l.prod * m) := by
  have hfold := foldl_u64 l 1
  rw [Nat.one_mul, Nat.mod_eq_of_lt (by decide : 1 < 2 ^ 64)] at hfold
  rw [hfold, u64, u64, Nat.mod_mul_mod]

/-- The byte count of a block that fits into memory is exact. -/
theorem u64_prod_mul {l : List Nat} {m : Nat} (h : l.prod * m < 2 ^ 64) :
    u64 (l.foldl (fun n e => u64 (n * e)) 1 * m) = l.prod * m := by
  rw [u64_foldl_mul]
  exact Nat.mod_eq_of_lt h

/-- The shape that step 4 of `read` records. -/
def viewShape (info : VariableInfo) : Option Bbox → Shape
  | some b =>
    { rank := b.rank
      extents := fun d => if (d : Int) < b.rank then b.extents d else 0
      strides := fun d => if (d : Int) < b.rank then b.strides d else 0 }
  | none => info.shape

/-- Read under the meaning of `amio_shape_t`, the shape finds every element of a packed buffer, and
nothing outside it. -/
structure DescribesBuffer (shape : Shape) (elementSize usedBytes : Nat) : Prop where
  rank_of : ∀ is, Within shape.extentList is →
    elementSize * offset is shape.strideList = elementSize * position shape.extentList is
  inside : ∀ is, Within shape.extentList is → elementSize * offset is shape.strideList < usedBytes

variable {shape : Shape} {size : Nat}

/-- A packed shape describes a buffer of its own size. -/
theorem describesBuffer_of_packed (hsize : 0 < size)
    (hp : Packed shape.extentList shape.strideList) :
    DescribesBuffer shape size (shape.extentList.prod * size) := by
  refine ⟨fun is his => by rw [hp.offset_eq his], fun is his => ?_⟩
  have hlt := Nat.mul_lt_mul_of_pos_left (position_lt his) hsize
  rw [hp.offset_eq his, Nat.mul_comm]
  exact_mod_cast hlt

theorem packed_of_describesBuffer {used : Nat} (hpos : ∀ e ∈ shape.extentList, 0 < e)
    (hsize : 0 < size) (h : DescribesBuffer shape size used) :
    Packed shape.extentList shape.strideList := by
  have hlen : ((dims shape.rank).map shape.strides).length = shape.extentList.length := by
    simp [Shape.extentList]
  have hcancel : (size : Int) ≠ 0 := by exact_mod_cast hsize.ne'
  refine (offset_eq_position_iff hpos (length_resolve hlen)).mp fun is his => ?_
  exact Int.eq_of_mul_eq_mul_left hcancel (h.rank_of is his)

/-- The view of a box has its extents. -/
theorem extentList_viewShape (info : VariableInfo) (b : Bbox) :
    (viewShape info (some b)).extentList = b.extentList := by
  refine List.map_congr_left fun d hd => ?_
  have hd : (d : Int) < b.rank := mem_dims.mp hd
  show (if (d : Int) < b.rank then b.extents d else 0).toNat = _
  rw [if_pos hd]

/-- The view of a box has its strides. -/
theorem strideList_viewShape (info : VariableInfo) {b : Bbox}
    (hb : ∀ d ∈ dims b.rank, 1 ≤ b.strides d) :
    (viewShape info (some b)).strideList = b.strideList := by
  have hstrides : (dims b.rank).map (viewShape info (some b)).strides = b.strideList := by
    refine List.map_congr_left fun d hd => ?_
    show (if (d : Int) < b.rank then b.strides d else 0) = _
    rw [if_pos (mem_dims.mp hd)]
  rw [Shape.strideList, extentList_viewShape]
  show resolve _ ((dims b.rank).map _) = _
  rw [hstrides]
  refine resolve_of_ne_zero (by simp [Bbox.extentList, Bbox.strideList]) fun s hs => ?_
  obtain ⟨d, hd, rfl⟩ := List.mem_map.mp hs
  have := hb d hd
  omega

/-- **The shape of a view.** Without a box it describes the buffer; with a box it does when the
steps of the box are the row-major strides of its extents. -/
theorem viewShape_describes_iff (info : VariableInfo) (bbox : Option Bbox)
    (hdescribed : ∀ d, info.shape.strides d = 0)
    (hdtype : 0 < elementSize info.dtype) (hok : validateBbox bbox info.shape = .ok) :
    DescribesBuffer (viewShape info bbox) (elementSize info.dtype)
        ((viewShape info bbox).extentList.prod * elementSize info.dtype) ↔
      ∀ b ∈ bbox, Packed b.extentList b.strideList := by
  cases bbox with
  | none =>
    -- strides of zero mean packed
    refine iff_of_true (describesBuffer_of_packed hdtype ?_) (by simp)
    exact Grib2.packed_of_zero fun d _ => hdescribed d
  | some b =>
    obtain ⟨-, hb⟩ := validateBbox_ok_iff.mp hok
    have hstrides := strideList_viewShape info fun d hd => (hb d hd).1
    have hextents := extentList_viewShape info b
    have hpos : ∀ e ∈ (viewShape info (some b)).extentList, 0 < e := by
      rw [hextents]
      intro e he
      obtain ⟨d, hd, rfl⟩ := List.mem_map.mp he
      obtain ⟨-, -, hext, -⟩ := hb d hd
      omega
    simp only [Option.mem_def, Option.some.injEq, forall_eq']
    -- the view has the extents and strides of the box
    rw [← hstrides, ← hextents]
    exact ⟨packed_of_describesBuffer hpos hdtype, describesBuffer_of_packed hdtype⟩

/-- A grid of four by four bytes. -/
def byteGrid : VariableInfo := ⟨some .u8, ⟨2, fun _ => 4, fun _ => 0⟩, 1⟩

/-- A part of a row. -/
theorem viewShape_describes_row :
    DescribesBuffer (viewShape byteGrid
      (some ⟨2, fun _ => 1, fun d => if d = 0 then 1 else 2, fun _ => 1⟩)) 1 2 := by
  refine (viewShape_describes_iff byteGrid _ (fun _ => rfl) (by decide) (by decide)).mpr ?_
  intro b hb
  obtain rfl := Option.some.inj hb
  decide

/-- A tile of two by two bytes with unit steps: the second row is looked for one byte after the
first. -/
theorem viewShape_rows_overlap :
    validateBbox (some ⟨2, fun _ => 1, fun _ => 2, fun _ => 1⟩) byteGrid.shape = .ok ∧
      ¬ DescribesBuffer
        (viewShape byteGrid (some ⟨2, fun _ => 1, fun _ => 2, fun _ => 1⟩)) 1 4 := by
  refine ⟨by decide, fun h => ?_⟩
  have hrow := h.rank_of [1, 0] (mem_cells.mp (by decide))
  revert hrow
  decide

end Amio
