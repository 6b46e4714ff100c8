import Amio.Lib.RowMajor
import Amio.Boundary.Bounds

/-!
# Packing strided fields for GRIB2

`GRIB2_Driver::write` hands the encoder one contiguous row-major field. A staging buffer whose shape
is contiguous already is passed through; any other is copied element by element, with an odometer
over the indices and a sum of products for the place of the element. The two paths agree
(`packRowMajor_faithful`): the packed field is the row-major reading of the shape's own layout, and
for a contiguous shape that is the buffer itself.

Sums and products are those of the machine; memory is a list of bytes, and an access outside it has
no result.
-/

namespace Amio

open RowMajor

/-! ### Layouts of the C surface -/

/-- The extents of the dimensions in use. -/
def Shape.extentList (shape : Shape) : List Nat :=
  (dims shape.rank).map fun d => (shape.extents d).toNat

/-- The strides as `amio_shape_t` defines them: in elements, a zero derived from the extents. -/
def Shape.strideList (shape : Shape) : List Int :=
  resolve shape.extentList ((dims shape.rank).map shape.strides)

/-- `static_cast<std::size_t>` of an `std::int64_t`. -/
def toSize (n : Int) : Nat := (n % 2 ^ 64).toNat

/-- `std::memcpy` out of an array. -/
def memcpy (src : List UInt8) (start count : Nat) : Option (List UInt8) :=
  if start + count ≤ src.length then some ((src.drop start).take count) else none

/-- `std::memcpy` into an array. -/
def overwrite (dst : List UInt8) (start : Nat) (bytes : List UInt8) : Option (List UInt8) :=
  if start + bytes.length ≤ dst.length then
    some (dst.take start ++ bytes ++ dst.drop (start + bytes.length))
  else none

/-- A copy does not change the length. -/
theorem overwrite_length {dst dst' bytes : List UInt8} {start : Nat}
    (h : overwrite dst start bytes = some dst') : dst'.length = dst.length := by
  unfold overwrite at h
  split at h
  · next hin =>
    obtain rfl := Option.some.inj h
    simp only [List.length_append, List.length_take, List.length_drop]
    omega
  · cases h

/-- A cast to `size_t` wraps around. -/
theorem toSize_cast (n : Int) : (toSize n : Int) = n % 2 ^ 64 :=
  Int.toNat_of_nonneg (Int.emod_nonneg n (by decide))

/-- A number that fits is cast exactly. -/
theorem toSize_of_lt {n : Int} (hnonneg : 0 ≤ n) (hlt : n < 2 ^ 64) : toSize n = n.toNat := by
  rw [toSize, Int.emod_eq_of_lt hnonneg hlt]

/-- The sum of products that addresses an element, one dimension at a time. -/
theorem toSize_add_mul (a i s : Int) :
    u64 (toSize a + u64 (toSize i * toSize s)) = toSize (a + i * s) := by
  have hcast : ((u64 (toSize a + u64 (toSize i * toSize s)) : Nat) : Int) =
      (a % 2 ^ 64 + i % 2 ^ 64 * (s % 2 ^ 64) % 2 ^ 64) % 2 ^ 64 := by
    rw [← toSize_cast a, ← toSize_cast i, ← toSize_cast s, u64, u64]
    push_cast
    rfl
  apply Int.ofNat_inj.mp
  rw [hcast, toSize_cast, ← Int.mul_emod, ← Int.add_emod]

namespace Grib2

/-! ### The code -/

/-- `total_elements`. -/
def totalElements (shape : Shape) : Nat :=
  if shape.rank ≤ 0 ∨ maxRank < shape.rank then 0
  else if (dims shape.rank).any fun d => shape.extents d ≤ 0 then 0
  else (dims shape.rank).foldl (fun count d => u64 (count * toSize (shape.extents d))) 1

/-- One turn of the second loop of `is_contiguous_row_major`; there is no value to go on with once
it has returned. -/
def expectStep (shape : Shape) (d : Fin maxRank) (acc : Option Int) : Option Int :=
  acc.bind fun expected =>
    if shape.strides d ≠ 0 ∧ shape.strides d ≠ expected then none
    else some (i64 (expected * shape.extents d))

/-- `is_contiguous_row_major`. -/
def isContiguousRowMajor (shape : Shape) : Bool :=
  if shape.rank ≤ 0 ∨ maxRank < shape.rank then false
  else if (dims shape.rank).all fun d => shape.strides d = 0 then true
  else ((dims shape.rank).foldr (expectStep shape) (some 1)).isSome

/-- One turn of the loop that resolves the strides: the strides so far and the row-major one. -/
def strideStep (shape : Shape) (d : Fin maxRank) (acc : (Fin maxRank → Int) × Int) :
    (Fin maxRank → Int) × Int :=
  (Function.update acc.1 d (if shape.strides d = 0 then acc.2 else shape.strides d),
    i64 (acc.2 * shape.extents d))

/-- `actual_strides` of `pack_row_major`. -/
def actualStrides (shape : Shape) : Fin maxRank → Int :=
  ((dims shape.rank).foldr (strideStep shape) ((fun _ => 0), 1)).1

/-- The place of the element at the given indices. -/
def srcElemOffset (shape : Shape) (strides indices : Fin maxRank → Int) : Nat :=
  (dims shape.rank).foldl
    (fun offset d => u64 (offset + u64 (toSize (indices d) * toSize (strides d)))) 0

/-- One turn of the loop that increments the indices; the flag is set once it has left. An index
stays below its extent, so that counting it up cannot overflow. -/
def incrementStep (shape : Shape) (d : Fin maxRank) (acc : (Fin maxRank → Int) × Bool) :
    (Fin maxRank → Int) × Bool :=
  if acc.2 then acc
  else if acc.1 d + 1 < shape.extents d then (Function.update acc.1 d (acc.1 d + 1), true)
  else (Function.update acc.1 d 0, false)

/-- The increment of the multi-dimensional index, last dimension first. -/
def increment (shape : Shape) (indices : Fin maxRank → Int) : Fin maxRank → Int :=
  ((dims shape.rank).foldr (incrementStep shape) (indices, false)).1

/-- The loop over the elements of `pack_row_major`. -/
def packLoop (shape : Shape) (strides : Fin maxRank → Int) (src : List UInt8) (elementSize : Nat) :
    Nat → (Fin maxRank → Int) → Nat → List UInt8 → Option (List UInt8)
  | 0, _, _, packed => some packed
  | n + 1, indices, dstOffset, packed => do
    -- the offset is computed in `size_t`
    let element ← memcpy src (u64 (srcElemOffset shape strides indices * elementSize)) elementSize
    let packed ← overwrite packed dstOffset element
    packLoop shape strides src elementSize n (increment shape indices) (dstOffset + elementSize)
      packed

/-- `pack_row_major`. -/
def packRowMajor (src : List UInt8) (shape : Shape) (elementSize : Nat) : Option (List UInt8) :=
  let numElements := totalElements shape
  let packed := List.replicate (u64 (numElements * elementSize)) 0
  if numElements = 0 ∨ elementSize = 0 then some packed
  else packLoop shape (actualStrides shape) src elementSize numElements (fun _ => 0) 0 packed

/-- The bytes that `write` hands the encoder, on the fast and on the slow path. -/
def encodeBytes (src : List UInt8) (shape : Shape) (elementSize : Nat) : Option (List UInt8) :=
  if isContiguousRowMajor shape then memcpy src 0 (u64 (totalElements shape * elementSize))
  else packRowMajor src shape elementSize

/-! ### The loops over the dimensions

Each loop is stated for any list of different dimensions, so that the induction is on the list. -/

section Loops

variable {shape : Shape} {ds : List (Fin maxRank)}

/-- The extents of the given dimensions. -/
def extentsAt (shape : Shape) (ds : List (Fin maxRank)) : List Nat :=
  ds.map fun d => (shape.extents d).toNat

/-- The indices at the given dimensions. -/
def indicesAt (indices : Fin maxRank → Int) (ds : List (Fin maxRank)) : List Nat :=
  ds.map fun d => (indices d).toNat

/-- The other axes do not see the update. -/
theorem map_update_of_notMem {d : Fin maxRank} (hd : d ∉ ds) (f : Fin maxRank → Int) (v : Int)
    {β : Type} (g : Int → β) :
    (ds.map fun e => g (Function.update f d v e)) = ds.map fun e => g (f e) := by
  refine List.map_congr_left fun e he => ?_
  rw [Function.update_of_ne]
  rintro rfl
  exact hd he

/-- The first index is updated. -/
theorem indicesAt_update {d : Fin maxRank} (hd : d ∉ ds) (f : Fin maxRank → Int) (v : Int) :
    indicesAt (Function.update f d v) (d :: ds) = v.toNat :: indicesAt f ds := by
  rw [indicesAt, List.map_cons, Function.update_self, map_update_of_notMem hd f v Int.toNat]
  rfl

/-- A product does not shrink. -/
theorem prod_extentsAt_le {d : Fin maxRank} (hd : 0 < shape.extents d) :
    (extentsAt shape ds).prod ≤ (extentsAt shape (d :: ds)).prod := by
  rw [extentsAt, extentsAt, List.map_cons, List.prod_cons]
  exact Nat.le_mul_of_pos_left _ (by omega)

theorem prod_extentsAt_cons {d : Fin maxRank} (hd : 0 < shape.extents d) :
    ((extentsAt shape (d :: ds)).prod : Int) =
      ((extentsAt shape ds).prod : Int) * shape.extents d := by
  rw [extentsAt, List.map_cons, List.prod_cons, Nat.cast_mul, Int.toNat_of_nonneg hd.le,
    Int.mul_comm]
  rfl

/-- The product that both loops from the last dimension to the first carry along. -/
theorem i64_prod {d : Fin maxRank} (hd : 0 < shape.extents d)
    (hprod : (extentsAt shape (d :: ds)).prod < 2 ^ 63) :
    i64 (((extentsAt shape ds).prod : Int) * shape.extents d) =
      ((extentsAt shape (d :: ds)).prod : Int) := by
  rw [← prod_extentsAt_cons hd]
  exact i64_of_isInt64 ⟨by omega, by exact_mod_cast hprod⟩

/-- The loop computes the strides of rows one after the other. -/
theorem foldr_strideStep (hnodup : ds.Nodup) (hpos : ∀ d ∈ ds, 0 < shape.extents d)
    (hprod : (extentsAt shape ds).prod < 2 ^ 63) :
    (ds.foldr (strideStep shape) ((fun _ => 0), 1)).2 = ((extentsAt shape ds).prod : Int) ∧
      ds.map (ds.foldr (strideStep shape) ((fun _ => 0), 1)).1 =
        resolve (extentsAt shape ds) (ds.map shape.strides) := by
  induction ds with
  | nil => exact ⟨rfl, rfl⟩
  | cons d ds ih =>
    obtain ⟨hd, hnodup⟩ := List.nodup_cons.mp hnodup
    have hpositive := hpos d List.mem_cons_self
    obtain ⟨hcarry, hstrides⟩ := ih hnodup (fun e he => hpos e (List.mem_cons_of_mem _ he))
      ((prod_extentsAt_le hpositive).trans_lt hprod)
    rw [List.foldr_cons, strideStep, hcarry]
    refine ⟨i64_prod hpositive hprod, ?_⟩
    -- the inner strides do not see the one that is set now
    have hrest := map_update_of_notMem hd (ds.foldr (strideStep shape) ((fun _ => 0), 1)).1
      (if shape.strides d = 0 then ((extentsAt shape ds).prod : Int) else shape.strides d) id
    show Function.update _ d _ d :: _ = _ :: _
    rw [Function.update_self]
    exact congrArg _ (hrest.trans hstrides)

/-- A shape that the second loop accepts has the row-major strides. -/
theorem foldr_expectStep {expected : Int} (hpos : ∀ d ∈ ds, 0 < shape.extents d)
    (hprod : (extentsAt shape ds).prod < 2 ^ 63)
    (h : ds.foldr (expectStep shape) (some 1) = some expected) :
    expected = ((extentsAt shape ds).prod : Int) ∧
      Packed (extentsAt shape ds) (resolve (extentsAt shape ds) (ds.map shape.strides)) := by
  induction ds generalizing expected with
  | nil => exact ⟨(Option.some.inj h).symm, trivial⟩
  | cons d ds ih =>
    have hpositive := hpos d List.mem_cons_self
    rw [List.foldr_cons, expectStep, Option.bind_eq_some_iff] at h
    obtain ⟨e, he, h⟩ := h
    obtain ⟨rfl, hpacked⟩ := ih (fun e he => hpos e (List.mem_cons_of_mem _ he))
      ((prod_extentsAt_le hpositive).trans_lt hprod) he
    split at h
    · cases h
    · next hstride =>
      obtain rfl := Option.some.inj h
      refine ⟨i64_prod hpositive hprod, fun _ => ?_, hpacked⟩
      -- a stride of zero stands for the packed one, any other must be it
      show (if shape.strides d = 0 then ((extentsAt shape ds).prod : Int) else shape.strides d) = _
      split
      · rfl
      · next hne => exact not_not.mp fun hother => hstride ⟨hne, hother⟩

/-- Strides that are all derived are the row-major ones. -/
theorem packed_of_zero (hzero : ∀ d ∈ ds, shape.strides d = 0) :
    Packed (extentsAt shape ds) (resolve (extentsAt shape ds) (ds.map shape.strides)) := by
  induction ds with
  | nil => trivial
  | cons d ds ih =>
    refine ⟨fun _ => ?_, ih fun e he => hzero e (List.mem_cons_of_mem _ he)⟩
    exact if_pos (hzero d List.mem_cons_self)

/-- The loop computes the offset of an element, modulo `2 ^ 64`. -/
theorem foldl_srcElemOffset (strides : Fin maxRank → Int) {indices : Fin maxRank → Int}
    (hnonneg : ∀ d ∈ ds, 0 ≤ indices d) (a : Int) :
    ds.foldl (fun offset d => u64 (offset + u64 (toSize (indices d) * toSize (strides d))))
        (toSize a) =
      toSize (a + offset (indicesAt indices ds) (ds.map strides)) := by
  induction ds generalizing a with
  | nil => simp [indicesAt]
  | cons d ds ih =>
    have hd := hnonneg d List.mem_cons_self
    rw [List.foldl_cons, toSize_add_mul, ih fun e he => hnonneg e (List.mem_cons_of_mem _ he)]
    simp only [indicesAt, List.map_cons, offset_cons, Int.toNat_of_nonneg hd, Int.add_assoc]

/-- The loop is one turn of the odometer. -/
theorem foldr_incrementStep {indices : Fin maxRank → Int} (hnodup : ds.Nodup)
    (hnonneg : ∀ d, 0 ≤ indices d) (hpos : ∀ d ∈ ds, 0 < shape.extents d) :
    (indicesAt (ds.foldr (incrementStep shape) (indices, false)).1 ds,
        !(ds.foldr (incrementStep shape) (indices, false)).2) =
      next (extentsAt shape ds) (indicesAt indices ds) ∧
    (∀ d, 0 ≤ (ds.foldr (incrementStep shape) (indices, false)).1 d) ∧
    ∀ d, d ∉ ds → (ds.foldr (incrementStep shape) (indices, false)).1 d = indices d := by
  induction ds with
  | nil => exact ⟨rfl, hnonneg, fun _ _ => rfl⟩
  | cons d ds ih =>
    obtain ⟨hd, hnodup⟩ := List.nodup_cons.mp hnodup
    obtain ⟨hnext, hnn, hsame⟩ := ih hnodup fun e he => hpos e (List.mem_cons_of_mem _ he)
    have hpositive := hpos d List.mem_cons_self
    have hindex := hnonneg d
    rw [List.foldr_cons]
    generalize ds.foldr (incrementStep shape) (indices, false) = acc at hnext hnn hsame
    obtain ⟨indices', left⟩ := acc
    have hsd : indices' d = indices d := hsame d hd
    have hother : ∀ v e, e ∉ d :: ds → Function.update indices' d v e = indices e := by
      intro v e he
      rw [List.mem_cons, not_or] at he
      rw [Function.update_of_ne he.1]
      exact hsame e he.2
    have hupdate : ∀ v, 0 ≤ v → ∀ e, 0 ≤ Function.update indices' d v e := by
      intro v hv e
      by_cases he : e = d
      · rw [he, Function.update_self]
        exact hv
      · rw [Function.update_of_ne he]
        exact hnn e
    have hcell : next (extentsAt shape (d :: ds)) (indicesAt indices (d :: ds)) =
        next ((shape.extents d).toNat :: extentsAt shape ds)
          ((indices d).toNat :: indicesAt indices ds) := rfl
    rw [hcell, next, ← hnext]
    -- a digit to the right has moved, and this one stays; or the carry arrives here
    cases left with
    | true =>
      refine ⟨?_, hnn, fun e he => hsame e fun hmem => he (List.mem_cons_of_mem _ hmem)⟩
      show ((indices' d).toNat :: indicesAt indices' ds, false) = _
      rw [hsd]
      rfl
    | false =>
      by_cases hroom : indices d + 1 < shape.extents d
      -- there is room: this digit moves
      · have hstep : incrementStep shape d (indices', false) =
            (Function.update indices' d (indices d + 1), true) := by
          simp [incrementStep, hsd, hroom]
        have hroom' : (indices d).toNat + 1 < (shape.extents d).toNat := by omega
        have hcount : (indices d + 1).toNat = (indices d).toNat + 1 := by omega
        rw [hstep]
        refine ⟨?_, hupdate _ (by omega), hother _⟩
        rw [indicesAt_update hd, hcount]
        exact (if_pos hroom').symm
      · have hstep : incrementStep shape d (indices', false) =
            (Function.update indices' d 0, false) := by
          simp [incrementStep, hsd, hroom]
        have hroom' : ¬ (indices d).toNat + 1 < (shape.extents d).toNat := by omega
        rw [hstep]
        refine ⟨?_, hupdate _ le_rfl, hother _⟩
        rw [indicesAt_update hd]
        exact (if_neg hroom').symm

end Loops

/-! ### The packed field -/

/-- No product over the shape leaves the machine's integers, and no element is stored before the
origin. -/
structure Addressable (shape : Shape) (elementSize : Nat) : Prop where
  rank_pos : 1 ≤ shape.rank
  rank_le : shape.rank ≤ maxRank
  extents_pos : ∀ d ∈ dims shape.rank, 0 < shape.extents d
  prod_lt : shape.extentList.prod < 2 ^ 63
  bytes_lt : shape.extentList.prod * elementSize < 2 ^ 64
  offset_nonneg : ∀ is, Within shape.extentList is → 0 ≤ offset is shape.strideList
  offset_lt : ∀ is, Within shape.extentList is →
    (offset is shape.strideList).toNat * elementSize < 2 ^ 64

section Field

variable {shape : Shape} {elementSize : Nat} {src : List UInt8}

theorem nodup_dims (rank : Int) : (dims rank).Nodup := (List.nodup_finRange maxRank).filter _

/-- The loop computes the number of elements, modulo `2 ^ 64`. -/
theorem totalElements_mod (hpos : 1 ≤ shape.rank) (hle : shape.rank ≤ maxRank)
    (hextents : ∀ d ∈ dims shape.rank, 0 < shape.extents d) :
    totalElements shape = shape.extentList.prod % 2 ^ 64 := by
  have hrank : ¬ (shape.rank ≤ 0 ∨ (maxRank : Int) < shape.rank) := by omega
  have hany : ((dims shape.rank).any fun d => shape.extents d ≤ 0) = false := by
    rw [List.any_eq_false]
    intro d hd
    have := hextents d hd
    simpa using this
  have hcount := WriteArgs.foldl_count (dims shape.rank) shape.extents
    (fun d hd => (hextents d hd).le) 1
  rw [Nat.one_mul, Nat.mod_eq_of_lt (by decide : 1 < 2 ^ 64)] at hcount
  rw [totalElements, if_neg hrank, hany, if_neg Bool.false_ne_true]
  exact hcount

/-- The packed field keeps its length. -/
theorem length_packLoop {strides indices : Fin maxRank → Int} {n dstOffset : Nat}
    {packed packed' : List UInt8}
    (h : packLoop shape strides src elementSize n indices dstOffset packed = some packed') :
    packed'.length = packed.length := by
  induction n generalizing indices dstOffset packed with
  | zero =>
    obtain rfl := Option.some.inj h
    rfl
  | succ n ih =>
    obtain ⟨element, -, h⟩ := Option.bind_eq_some_iff.mp h
    obtain ⟨packed₁, hwrite, h⟩ := Option.bind_eq_some_iff.mp h
    rw [ih h, overwrite_length hwrite]

theorem extentList_pos (hextents : ∀ d ∈ dims shape.rank, 0 < shape.extents d) :
    ∀ e ∈ shape.extentList, 0 < e := by
  intro e he
  obtain ⟨d, hd, rfl⟩ := List.mem_map.mp he
  have := hextents d hd
  omega

/-- The increment moves to the next cell. -/
theorem increment_cell {indices : Fin maxRank → Int}
    (hextents : ∀ d ∈ dims shape.rank, 0 < shape.extents d) (hnonneg : ∀ d, 0 ≤ indices d)
    (hin : Within shape.extentList (indicesAt indices (dims shape.rank)))
    (hmore : position shape.extentList (indicesAt indices (dims shape.rank)) + 1 <
      shape.extentList.prod) :
    (∀ d, 0 ≤ increment shape indices d) ∧
    Within shape.extentList (indicesAt (increment shape indices) (dims shape.rank)) ∧
    position shape.extentList (indicesAt (increment shape indices) (dims shape.rank)) =
      position shape.extentList (indicesAt indices (dims shape.rank)) + 1 := by
  obtain ⟨hnext, hnn, -⟩ := foldr_incrementStep (nodup_dims shape.rank) hnonneg hextents
  obtain ⟨hwithin, hflag⟩ := next_spec (extentList_pos hextents) hin
  have hnext : (indicesAt (increment shape indices) (dims shape.rank), _) =
      next shape.extentList (indicesAt indices (dims shape.rank)) := hnext
  rw [← hnext] at hwithin hflag
  refine ⟨hnn, hwithin, ?_⟩
  -- the last cell has no successor, and this one is not the last
  split at hflag
  · omega
  · exact hflag

/-- The encoder gets no more bytes than the machine can count. -/
theorem length_encodeBytes {bytes : List UInt8}
    (h : encodeBytes src shape elementSize = some bytes) : bytes.length < 2 ^ 64 := by
  have hwrap : u64 (totalElements shape * elementSize) < 2 ^ 64 :=
    Nat.mod_lt _ (Nat.two_pow_pos 64)
  unfold encodeBytes at h
  split at h
  -- one copy of a packed source, or the loop into a buffer; both have a size that fits
  · unfold memcpy at h
    split at h
    · obtain rfl := Option.some.inj h
      rw [List.length_take]
      omega
    · cases h
  · simp only [packRowMajor] at h
    split at h
    · obtain rfl := Option.some.inj h
      rwa [List.length_replicate]
    · rwa [length_packLoop h, List.length_replicate]

namespace Addressable

theorem extentList_pos (h : Addressable shape elementSize) : ∀ e ∈ shape.extentList, 0 < e :=
  Grib2.extentList_pos h.extents_pos

/-- The number of elements is exact. -/
theorem totalElements_eq (h : Addressable shape elementSize) :
    totalElements shape = shape.extentList.prod := by
  rw [totalElements_mod h.rank_pos h.rank_le h.extents_pos]
  exact Nat.mod_eq_of_lt (h.prod_lt.trans (by decide))

/-- The strides are those of the shape. -/
theorem strides_eq (h : Addressable shape elementSize) :
    (dims shape.rank).map (actualStrides shape) = shape.strideList :=
  (foldr_strideStep (nodup_dims _) h.extents_pos h.prod_lt).2

/-- The machine's sum of products is the offset. -/
theorem srcElemOffset_eq (h : Addressable shape elementSize) {indices : Fin maxRank → Int}
    (hnonneg : ∀ d, 0 ≤ indices d) :
    srcElemOffset shape (actualStrides shape) indices =
      toSize (offset (indicesAt indices (dims shape.rank)) shape.strideList) := by
  have hsum := foldl_srcElemOffset (actualStrides shape)
    (fun d (_ : d ∈ dims shape.rank) => hnonneg d) 0
  rw [h.strides_eq, Int.zero_add] at hsum
  exact hsum

/-- One element is read at the place of its cell. -/
theorem memcpy_element (h : Addressable shape elementSize) (hsize : 0 < elementSize)
    {indices : Fin maxRank → Int} (hnonneg : ∀ d, 0 ≤ indices d)
    (hin : Within shape.extentList (indicesAt indices (dims shape.rank))) :
    memcpy src (u64 (srcElemOffset shape (actualStrides shape) indices * elementSize)) elementSize =
      let place := (offset (indicesAt indices (dims shape.rank)) shape.strideList).toNat
      if (place + 1) * elementSize ≤ src.length then
        some ((src.drop (place * elementSize)).take elementSize)
      else none := by
  have hoff := h.offset_nonneg _ hin
  have hlt := h.offset_lt _ hin
  have hplace : (offset (indicesAt indices (dims shape.rank)) shape.strideList).toNat < 2 ^ 64 :=
    (Nat.le_mul_of_pos_right _ hsize).trans_lt hlt
  have hwrap : u64 (srcElemOffset shape (actualStrides shape) indices * elementSize) =
      (offset (indicesAt indices (dims shape.rank)) shape.strideList).toNat * elementSize := by
    rw [h.srcElemOffset_eq hnonneg, toSize_of_lt hoff (by omega), u64, Nat.mod_eq_of_lt hlt]
  simp only [hwrap, memcpy, Nat.add_mul, Nat.one_mul]

/-- One turn of the loop over the elements. -/
theorem packLoop_succ (h : Addressable shape elementSize) (hsize : 0 < elementSize) (n : Nat)
    {indices : Fin maxRank → Int} {packed : List UInt8} {p place : Nat}
    (hnonneg : ∀ d, 0 ≤ indices d)
    (hin : Within shape.extentList (indicesAt indices (dims shape.rank)))
    (hplace : (offset (indicesAt indices (dims shape.rank)) shape.strideList).toNat = place)
    (hroom : (p + 1) * elementSize ≤ packed.length) :
    packLoop shape (actualStrides shape) src elementSize (n + 1) indices (p * elementSize) packed =
      if (place + 1) * elementSize ≤ src.length then
        packLoop shape (actualStrides shape) src elementSize n (increment shape indices)
          ((p + 1) * elementSize)
          (packed.take (p * elementSize) ++ (src.drop (place * elementSize)).take elementSize ++
            packed.drop ((p + 1) * elementSize))
      else none := by
  rw [packLoop, h.memcpy_element hsize hnonneg hin, hplace]
  show (if _ then some _ else none).bind _ = _
  simp only [Nat.add_mul, Nat.one_mul] at hroom ⊢
  split
  -- the element is read, and stored at its place in the packed field
  · next hinside =>
    have hlen : ((src.drop (place * elementSize)).take elementSize).length = elementSize := by
      rw [List.length_take, List.length_drop]
      omega
    rw [Option.bind_some, overwrite, hlen, if_pos hroom]
    rfl
  · rfl

/-- **The loop.** From a cell on, the rest of the cells is gathered behind what is packed. -/
theorem packLoop_eq (h : Addressable shape elementSize) (src : List UInt8)
    (hsize : 0 < elementSize) (n : Nat) {indices : Fin maxRank → Int} {packed : List UInt8}
    {p : Nat} (hnonneg : ∀ d, 0 ≤ indices d)
    (hin : Within shape.extentList (indicesAt indices (dims shape.rank)))
    (hp : position shape.extentList (indicesAt indices (dims shape.rank)) = p)
    (hn : p + (n + 1) = shape.extentList.prod)
    (hlen : packed.length = shape.extentList.prod * elementSize) :
    packLoop shape (actualStrides shape) src elementSize (n + 1) indices (p * elementSize) packed =
      (gather src elementSize ((places shape.extentList shape.strideList).drop p)).map
        (packed.take (p * elementSize) ++ ·) := by
  induction n generalizing indices packed p with
  | zero =>
    have hroom : (p + 1) * elementSize = packed.length := by rw [hlen, hn]
    have hend : (places shape.extentList shape.strideList).drop (p + 1) = [] := by
      rw [hn, List.drop_eq_nil_iff, length_places]
    rw [h.packLoop_succ hsize 0 hnonneg hin rfl hroom.le, ← hp, drop_places hin, hp, hend, gather,
      packLoop, hroom, List.drop_length]
    split
    · rw [gather, Option.map_some, Option.map_some, List.append_assoc]
    · rfl
  | succ n ih =>
    have hroom : (p + 1) * elementSize ≤ packed.length := by
      rw [hlen]
      exact Nat.mul_le_mul_right _ (by omega)
    obtain ⟨hnonneg', hin', hp'⟩ := increment_cell h.extents_pos hnonneg hin (by omega)
    rw [hp] at hp'
    rw [h.packLoop_succ hsize (n + 1) hnonneg hin rfl hroom, ← hp, drop_places hin, hp, gather]
    split
    · next hinside =>
      -- the element lies between what was packed before and what is still zero
      generalize hel : (src.drop ((offset (indicesAt indices (dims shape.rank))
        shape.strideList).toNat * elementSize)).take elementSize = element
      have hsplit : (packed.take (p * elementSize) ++ element).length = (p + 1) * elementSize := by
        have hmul : (p + 1) * elementSize = p * elementSize + elementSize := by ring
        rw [Nat.add_mul, Nat.one_mul] at hinside
        rw [← hel, List.length_append, List.length_take, List.length_take, List.length_drop]
        omega
      have hlen' : (packed.take (p * elementSize) ++ element ++
          packed.drop ((p + 1) * elementSize)).length = shape.extentList.prod * elementSize := by
        rw [List.length_append, hsplit, List.length_drop]
        omega
      rw [ih hnonneg' hin' hp' (by omega) hlen', ← hsplit, List.take_left, Option.map_map]
      simp only [Function.comp_def, List.append_assoc]
    · rfl

/-- **The packed field** is what the layout of the shape stores, cell by cell. -/
theorem packRowMajor_eq (h : Addressable shape elementSize) :
    packRowMajor src shape elementSize =
      gather src elementSize (places shape.extentList shape.strideList) := by
  have hprod : 0 < shape.extentList.prod := List.prod_pos_iff_forall_pos_nat.mpr h.extentList_pos
  simp only [packRowMajor, h.totalElements_eq, u64, Nat.mod_eq_of_lt h.bytes_lt]
  rcases Nat.eq_zero_or_pos elementSize with rfl | hsize
  -- elements of no bytes leave nothing to gather
  · rw [if_pos (.inr rfl), gather_eq_some (by simp)]
    simp
  · obtain ⟨n, hn⟩ : ∃ n, shape.extentList.prod = n + 1 := ⟨_, (Nat.succ_pred hprod.ne').symm⟩
    have hzeros : indicesAt (fun _ => 0) (dims shape.rank) = shape.extentList.map fun _ => 0 := by
      rw [indicesAt, Shape.extentList, List.map_map]
      rfl
    -- the loop from the first cell to the last
    have hloop := h.packLoop_eq src hsize n (p := 0) (fun _ => le_rfl)
      (hzeros ▸ within_zeros h.extentList_pos) (hzeros ▸ position_zeros _) (by omega)
      (List.length_replicate (a := 0))
    rw [if_neg (by omega), hn]
    rw [Nat.zero_mul, hn] at hloop
    rw [hloop]
    simp

/-- A shape that passes the contiguity test is stored in row-major order. -/
theorem packed_of_contiguous (h : Addressable shape elementSize)
    (hcont : isContiguousRowMajor shape = true) : Packed shape.extentList shape.strideList := by
  unfold isContiguousRowMajor at hcont
  split at hcont
  · cases hcont
  · split at hcont
    · next hzero =>
      refine packed_of_zero fun d hd => ?_
      simpa using List.all_eq_true.mp hzero d hd
    · obtain ⟨expected, hexpected⟩ := Option.isSome_iff_exists.mp hcont
      exact (foldr_expectStep h.extents_pos h.prod_lt hexpected).2

/-- **Both paths** hand the encoder what the layout of the shape stores. -/
theorem encodeBytes_eq (h : Addressable shape elementSize) :
    encodeBytes src shape elementSize =
      gather src elementSize (places shape.extentList shape.strideList) := by
  unfold encodeBytes
  split
  · next hcont =>
    rw [(h.packed_of_contiguous hcont).gather_eq h.extentList_pos, h.totalElements_eq, u64,
      Nat.mod_eq_of_lt h.bytes_lt, memcpy, Nat.zero_add, List.drop_zero]
  · exact h.packRowMajor_eq

end Addressable

/-- Offsets are not negative when strides are not. -/
theorem offset_nonneg {is : List Nat} {ss : List Int} (h : ∀ s ∈ ss, 0 ≤ s) : 0 ≤ offset is ss := by
  induction is generalizing ss with
  | nil => simp
  | cons i is ih =>
    cases ss with
    | nil => simp
    | cons s ss =>
      have hs := mul_nonneg (Int.natCast_nonneg i) (h s List.mem_cons_self)
      have hrest := ih fun t ht => h t (List.mem_cons_of_mem _ ht)
      rw [offset_cons]
      omega

/-- Strides that are not negative. -/
theorem strideList_nonneg (h : ∀ d ∈ dims shape.rank, 0 ≤ shape.strides d) :
    ∀ s ∈ shape.strideList, 0 ≤ s := by
  rw [Shape.strideList, Shape.extentList]
  generalize dims shape.rank = ds at h
  induction ds with
  | nil => simp [resolve]
  | cons d ds ih =>
    intro s hs
    have hd := h d List.mem_cons_self
    rw [List.map_cons, List.map_cons, resolve] at hs
    rcases List.mem_cons.mp hs with rfl | hmem
    · split <;> omega
    · exact ih (fun e he => h e (List.mem_cons_of_mem _ he)) s hmem

/-- **The fast and the slow path.** The packed field has the elements of the shape in row-major
order, each read at its place in the layout; for a contiguous shape it is the beginning of the
buffer, so that the encoder gets the same bytes on both paths. -/
theorem packRowMajor_faithful (shape : Shape) (elementSize : Nat) (src : List UInt8)
    (hrank : 1 ≤ shape.rank ∧ shape.rank ≤ maxRank)
    (hextents : ∀ d ∈ dims shape.rank, 0 < shape.extents d)
    (hstrides : ∀ d ∈ dims shape.rank, 0 ≤ shape.strides d)
    (hprod : shape.extentList.prod < 2 ^ 63)
    (hbytes : shape.extentList.prod * elementSize < 2 ^ 64)
    (hfit : ∀ is, Within shape.extentList is →
      (offset is shape.strideList).toNat * elementSize < 2 ^ 64)
    (hcover : ∀ is, Within shape.extentList is →
      ((offset is shape.strideList).toNat + 1) * elementSize ≤ src.length) :
    ∃ packed, packRowMajor src shape elementSize = some packed ∧
      packed.length = shape.extentList.prod * elementSize ∧
      (∀ is, Within shape.extentList is →
        (packed.drop (position shape.extentList is * elementSize)).take elementSize =
          (src.drop ((offset is shape.strideList).toNat * elementSize)).take elementSize) ∧
      (isContiguousRowMajor shape = true →
        packed = src.take (shape.extentList.prod * elementSize)) ∧
      encodeBytes src shape elementSize = some packed := by
  have h : Addressable shape elementSize := ⟨hrank.1, hrank.2, hextents, hprod, hbytes,
    fun _ _ => offset_nonneg (strideList_nonneg hstrides), hfit⟩
  -- every element of the shape lies inside the source
  have hinside : ∀ k ∈ places shape.extentList shape.strideList,
      (k + 1) * elementSize ≤ src.length := by
    intro k hk
    obtain ⟨is, his, rfl⟩ := mem_places.mp hk
    exact hcover is his
  obtain ⟨packed, hgather⟩ : ∃ packed,
      gather src elementSize (places shape.extentList shape.strideList) = some packed :=
    ⟨_, gather_eq_some hinside⟩
  -- the loop gathers the elements in row-major order
  have hpack : packRowMajor src shape elementSize = some packed := h.packRowMajor_eq.trans hgather
  refine ⟨packed, hpack, ?_, fun is his => gather_block hgather (getElem?_places his), ?_,
    h.encodeBytes_eq.trans hgather⟩
  · rw [length_gather hgather, length_places]
  -- in a packed source they are there already
  · intro hcont
    rw [(h.packed_of_contiguous hcont).gather_eq h.extentList_pos] at hgather
    split at hgather
    · exact (Option.some.inj hgather).symm
    · cases hgather

end Field

/-- Two rows of two bytes each in rows of three. -/
def clippedRows : Shape := ⟨2, fun _ => 2, fun d => if d = 0 then 3 else 0⟩

theorem packRowMajor_faithful_clippedRows : ∃ packed,
    packRowMajor [1, 2, 3, 4, 5] clippedRows 1 = some packed ∧ packed.length = 4 ∧
      encodeBytes [1, 2, 3, 4, 5] clippedRows 1 = some packed := by
  have hsmall : ∀ is ∈ cells clippedRows.extentList,
      (offset is clippedRows.strideList).toNat * 1 < 2 ^ 64 ∧
        ((offset is clippedRows.strideList).toNat + 1) * 1 ≤ 5 := by decide
  obtain ⟨packed, hpack, hlen, -, -, hencode⟩ := packRowMajor_faithful clippedRows 1 [1, 2, 3, 4, 5]
    (by decide) (by decide) (by decide) (by decide) (by decide)
    (fun is his => (hsmall is (mem_cells.mpr his)).1)
    (fun is his => (hsmall is (mem_cells.mpr his)).2)
  exact ⟨packed, hpack, hlen, hencode⟩

end Grib2

end Amio
