import Amio.Drivers.Packing

/-!
# Strided writes

`amio_shape_t` lets a caller describe an array that is not contiguous: a stride for every dimension,
in elements, zero for the row-major one. `write` copies the first `product(extents)` elements behind
the host pointer into a staging buffer, whatever the strides are, and each driver reads the field
from there. GRIB2 applies the strides to the copy; NetCDF, NCZarr and Zarr take the copy for a
row-major array.

So a driver gets the caller's field exactly for the layouts that survive the copy
(`stored_iff`): the row-major ones, and for GRIB2 those that address just as many elements as the
copy has.
-/

namespace Amio

open RowMajor

/-! ### The code -/

/-- The drivers that write. -/
inductive WriteDriver
  | grib2
  | netcdf
  | nczarr
  | zarr
  deriving DecidableEq, Repr

/-- What comes of a field: the driver refuses it, a byte outside an array is read, or the encoder
gets a sequence of bytes. -/
inductive Encoded
  | refused
  | outside
  | handed (bytes : List UInt8)
  deriving DecidableEq, Repr

def Encoded.ofMemory : Option (List UInt8) → Encoded
  | none => .outside
  | some bytes => .handed bytes

/-- An encoder that takes a pointer and a count for every dimension reads as many elements as the
counts have cells. -/
def encodeContiguous (staged : List UInt8) (dtype : Option Dtype) (shape : Shape) : Encoded :=
  .ofMemory (memcpy staged 0 (shape.extentList.prod * elementSize dtype))

/-- The payload of `NetCDF_Driver::write`: `nc_put_vara` with the extents for counts. -/
def netcdfWrite (staged : List UInt8) (dtype : Option Dtype) (shape : Shape) : Encoded :=
  encodeContiguous staged dtype shape

/-- The payload of the NCZarr `Zarr_Driver::write`: `nc_put_vara` with the extents for counts. -/
def nczarrWrite (staged : List UInt8) (dtype : Option Dtype) (shape : Shape) : Encoded :=
  encodeContiguous staged dtype shape

/-- The payload of `Zarr_Driver::write`: an array view of the extents in C order. -/
def zarrWrite (staged : List UInt8) (dtype : Option Dtype) (shape : Shape) : Encoded :=
  encodeContiguous staged dtype shape

/-- The payload of `GRIB2_Driver::write`. -/
def grib2Write (staged : List UInt8) (dtype : Option Dtype) (shape : Shape) : Encoded :=
  if dtype ≠ some .f32 then .refused
  else if Grib2.totalElements shape = 0 ∨ elementSize dtype = 0 then .refused
  else .ofMemory (Grib2.encodeBytes staged shape (elementSize dtype))

def WriteDriver.write : WriteDriver → List UInt8 → Option Dtype → Shape → Encoded
  | .grib2 => grib2Write
  | .netcdf => netcdfWrite
  | .nczarr => nczarrWrite
  | .zarr => zarrWrite

namespace WriteArgs

/-- The copy of step 5 of `write`, and what the driver then makes of it. -/
def encode (a : WriteArgs) (driver : WriteDriver) (host : List UInt8) : Encoded :=
  match memcpy host 0 a.payloadBytes with
  | none => .outside
  | some staged => driver.write staged a.dtype a.shape

/-! ### The property -/

/-- The places of the caller's array that the shape addresses, in row-major order. -/
def hostPlaces (a : WriteArgs) : List Nat := places a.shape.extentList a.shape.strideList

/-- The host array has every addressed element. -/
def Covers (a : WriteArgs) (host : List UInt8) : Prop :=
  ∀ k ∈ a.hostPlaces, (k + 1) * elementSize a.dtype ≤ host.length

/-- Nothing is read outside an array, and the encoder gets the caller's field in row-major order. -/
def Stored (a : WriteArgs) (driver : WriteDriver) : Prop :=
  ∀ host, a.Covers host → a.encode driver host = .refused ∨
    ∃ bytes, a.encode driver host = .handed bytes ∧
      gather host (elementSize a.dtype) a.hostPlaces = some bytes

/-- The addressed span, in elements. -/
def span (a : WriteArgs) : Nat :=
  (offset (last a.shape.extentList) a.shape.strideList).toNat + 1

/-- The layouts that survive the copy. A field that GRIB2 refuses has still been copied. -/
def Survives (a : WriteArgs) : WriteDriver → Prop
  | .grib2 =>
    if a.dtype = some .f32 then a.span = a.shape.extentList.prod
    else a.payloadBytes ≤ a.span * elementSize a.dtype
  | .netcdf | .nczarr | .zarr => Packed a.shape.extentList a.shape.strideList

/-- The shape can describe an array in memory. -/
structure Describes (a : WriteArgs) : Prop where
  offset_nonneg : ∀ is, Within a.shape.extentList is → 0 ≤ offset is a.shape.strideList
  offset_lt : ∀ is, Within a.shape.extentList is →
    ((offset is a.shape.strideList).toNat + 1) * elementSize a.dtype < 2 ^ 64

/-! ### The copy -/

section Copy

variable {a : WriteArgs}

theorem extentList_pos (hcheck : a.check = .ok) : ∀ e ∈ a.shape.extentList, 0 < e := by
  obtain ⟨-, hsound, -⟩ | ⟨hbad, -⟩ := check_eq (a := a)
  · intro e he
    obtain ⟨d, hd, rfl⟩ := List.mem_map.mp he
    have hshape := hsound.2.2
    simp only [validateShape, Bool.and_eq_true, List.all_eq_true, decide_eq_true_eq] at hshape
    have := hshape.2 d hd
    omega
  · rw [hcheck] at hbad
    cases hbad

/-- What an accepted call knows of its arguments. -/
theorem accepted (hcheck : a.check = .ok) :
    a.Sound ∧ a.payloadBytes = a.shape.extentList.prod * elementSize a.dtype % 2 ^ 64 ∧
      a.payloadBytes ≠ 0 := by
  obtain ⟨-, hsound, hne⟩ | ⟨hbad, -⟩ := check_eq (a := a)
  · exact ⟨hsound, payloadBytes_eq hsound.2.2, hne⟩
  · rw [hcheck] at hbad
    cases hbad

/-- Every element is within the span. -/
theorem place_lt_span (hcheck : a.check = .ok) (hd : a.Describes) {k : Nat}
    (hk : k ∈ a.hostPlaces) : k < a.span := by
  obtain ⟨is, his, rfl⟩ := mem_places.mp hk
  have hle := offset_le_last (extentList_pos hcheck) hd.offset_nonneg his
  unfold span
  omega

/-- A host array covers the layout when it reaches the last cell. -/
theorem covers_iff (hcheck : a.check = .ok) (hd : a.Describes) {host : List UInt8} :
    a.Covers host ↔ a.span * elementSize a.dtype ≤ host.length := by
  constructor
  · exact fun h => h _ (mem_places.mpr ⟨_, within_last (extentList_pos hcheck), rfl⟩)
  · exact fun h k hk => (Nat.mul_le_mul_right _ (place_lt_span hcheck hd hk)).trans h

/-- The span of a layout that ends with the copy fits in memory, and so does the copy. -/
theorem bytes_lt (hcheck : a.check = .ok) (hd : a.Describes)
    (hspan : a.shape.extentList.prod ≤ a.span) :
    a.shape.extentList.prod * elementSize a.dtype < 2 ^ 64 :=
  (Nat.mul_le_mul_right _ hspan).trans_lt (hd.offset_lt _ (within_last (extentList_pos hcheck)))

/-- Where the size does not wrap, the copy is the beginning of the host array. -/
theorem encode_of_lt (hcheck : a.check = .ok) (driver : WriteDriver) (host : List UInt8)
    (hlt : a.shape.extentList.prod * elementSize a.dtype < 2 ^ 64) :
    a.encode driver host =
      if a.shape.extentList.prod * elementSize a.dtype ≤ host.length then
        driver.write (host.take (a.shape.extentList.prod * elementSize a.dtype)) a.dtype a.shape
      else .outside := by
  obtain ⟨-, hpayload, -⟩ := accepted hcheck
  rw [encode, hpayload, Nat.mod_eq_of_lt hlt, memcpy, Nat.zero_add, List.drop_zero]
  split <;> split <;> simp_all

/-- The copy is no longer than the machine can count. -/
theorem encode_cases (hcheck : a.check = .ok) (driver : WriteDriver) (host : List UInt8) :
    a.encode driver host = .outside ∨
      ∃ staged : List UInt8, staged.length < 2 ^ 64 ∧
        a.encode driver host = driver.write staged a.dtype a.shape := by
  obtain ⟨-, hpayload, -⟩ := accepted hcheck
  rw [encode, memcpy]
  split
  · exact .inl rfl
  -- the copy has as many bytes as the wrapped product says
  · next staged hcopy =>
    refine .inr ⟨staged, ?_, rfl⟩
    split at hcopy
    · obtain rfl := Option.some.inj hcopy
      have := Nat.mod_lt (a.shape.extentList.prod * elementSize a.dtype) (Nat.two_pow_pos 64)
      rw [List.length_take]
      omega
    · cases hcopy

/-! ### Encoders that read a contiguous array -/

/-- The span of a packed layout is its own size. -/
theorem span_of_packed (hcheck : a.check = .ok)
    (hp : Packed a.shape.extentList a.shape.strideList) : a.span = a.shape.extentList.prod := by
  have hpos := extentList_pos hcheck
  rw [span, hp.offset_eq (within_last hpos), Int.toNat_natCast, position_last hpos]

/-- A packed layout is stored. -/
theorem stored_of_packed (hcheck : a.check = .ok) (hd : a.Describes) {driver : WriteDriver}
    (hdriver : driver.write = encodeContiguous)
    (hp : Packed a.shape.extentList a.shape.strideList) : a.Stored driver := by
  intro host hcovers
  have hspan := span_of_packed hcheck hp
  have hlen := (covers_iff hcheck hd).mp hcovers
  rw [hspan] at hlen
  have hlt := bytes_lt hcheck hd hspan.ge
  refine .inr ⟨host.take (a.shape.extentList.prod * elementSize a.dtype), ?_, ?_⟩
  · rw [encode_of_lt hcheck driver host hlt, if_pos hlen, hdriver, encodeContiguous, memcpy,
      if_pos (by rw [List.length_take]; omega), List.drop_zero, List.take_take, Nat.min_self]
    rfl
  · rw [hostPlaces, hp.gather_eq (extentList_pos hcheck), if_pos hlen]

/-- An array that is zero but for one byte. -/
def markedAt (n j : Nat) : List UInt8 := (List.range n).map fun i => if i = j then 1 else 0

/-- The one element that is marked. -/
theorem getElem?_markedAt {n j i : Nat} (hi : i < n) :
    (markedAt n j)[i]? = some (if i = j then 1 else 0) := by
  rw [markedAt, List.getElem?_map, List.getElem?_range hi]
  rfl

/-- A mark shows where a cell was read. -/
theorem position_eq_of_gather {es is : List Nat} {ss : List Int} {n size : Nat} (hsize : 0 < size)
    (his : Within es is) (hn : es.prod * size ≤ n)
    (hplace : (offset is ss).toNat * size < n)
    (h : gather (markedAt n ((offset is ss).toNat * size)) size (places es ss) =
      some ((markedAt n ((offset is ss).toNat * size)).take (es.prod * size))) :
    position es is = (offset is ss).toNat := by
  have hin : position es is * size < es.prod * size :=
    Nat.mul_lt_mul_of_pos_right (position_lt his) hsize
  have hblock := gather_block h (getElem?_places his)
  have hfirst := congrArg (·[0]?) hblock
  simp only [List.getElem?_take_of_lt hsize, List.getElem?_drop, Nat.add_zero,
    List.getElem?_take_of_lt hin] at hfirst
  rw [getElem?_markedAt (by omega), getElem?_markedAt hplace, if_pos rfl] at hfirst
  split at hfirst
  · next heq => exact Nat.eq_of_mul_eq_mul_right hsize heq
  · simp at hfirst

/-- A call that reads outside an array does not store the field. -/
theorem not_stored_of_outside {driver : WriteDriver} {host : List UInt8} (hcovers : a.Covers host)
    (hout : a.encode driver host = .outside) : ¬ a.Stored driver := by
  intro h
  obtain hrefused | ⟨bytes, hbytes, -⟩ := h host hcovers
  · rw [hout] at hrefused
    cases hrefused
  · rw [hout] at hbytes
    cases hbytes

/-- A copy that is too short is read past its end. -/
theorem encodeContiguous_of_lt {staged : List UInt8} {dtype : Option Dtype} {shape : Shape}
    (h : staged.length < shape.extentList.prod * elementSize dtype) :
    encodeContiguous staged dtype shape = .outside := by
  rw [encodeContiguous, memcpy, if_neg (by omega)]
  rfl

/-- Only a packed layout is stored. -/
theorem packed_of_stored (hcheck : a.check = .ok) (hd : a.Describes) {driver : WriteDriver}
    (hdriver : driver.write = encodeContiguous) (h : a.Stored driver) :
    Packed a.shape.extentList a.shape.strideList := by
  have hpos := extentList_pos hcheck
  obtain ⟨hsound, -, -⟩ := accepted hcheck
  have hsize : 0 < elementSize a.dtype := Nat.pos_of_ne_zero hsound.2.1
  have hdims : ((dims a.shape.rank).map a.shape.strides).length = a.shape.extentList.length := by
    simp [Shape.extentList]
  refine (offset_eq_position_iff hpos (length_resolve hdims)).mp fun is his => ?_
  by_contra hne
  -- mark the element that the layout stores in the cell
  let place := (offset is a.shape.strideList).toNat
  let bytes := a.shape.extentList.prod * elementSize a.dtype
  let host := markedAt (max bytes (a.span * elementSize a.dtype)) (place * elementSize a.dtype)
  have hlen : host.length = max bytes (a.span * elementSize a.dtype) := by
    simp [host, markedAt]
  have hcovers : a.Covers host := (covers_iff hcheck hd).mpr (by rw [hlen]; exact le_max_right _ _)
  rcases Nat.lt_or_ge bytes (2 ^ 64) with hlt | hlarge
  · have hencode : a.encode driver host = .handed (host.take bytes) := by
      rw [encode_of_lt hcheck driver host hlt, if_pos (by rw [hlen]; exact le_max_left _ _),
        hdriver, encodeContiguous, memcpy, if_pos (by rw [List.length_take, hlen]; omega),
        List.drop_zero, List.take_take, Nat.min_self]
      rfl
    obtain hrefused | ⟨b, hb, hgather⟩ := h host hcovers
    · rw [hencode] at hrefused
      cases hrefused
    · rw [hencode] at hb
      obtain rfl := Encoded.handed.inj hb
      have hplace : place * elementSize a.dtype < max bytes (a.span * elementSize a.dtype) := by
        have hreach := hcovers place (mem_places.mpr ⟨is, his, rfl⟩)
        rw [hlen, Nat.add_mul, Nat.one_mul] at hreach
        omega
      have hsame := position_eq_of_gather hsize his (le_max_left _ _) hplace hgather
      have hnonneg := hd.offset_nonneg is his
      refine hne ?_
      show offset is a.shape.strideList = _
      omega
  · obtain hout | ⟨staged, hstaged, hencode⟩ := encode_cases hcheck driver host
    · exact not_stored_of_outside hcovers hout h
    · refine not_stored_of_outside hcovers ?_ h
      rw [hencode, hdriver]
      exact encodeContiguous_of_lt (by omega)

/-! ### GRIB2 -/

/-- Where the size does not wrap, no other product of the driver does. -/
theorem addressable (hcheck : a.check = .ok) (hd : a.Describes) (hdtype : a.dtype = some .f32)
    (hlt : a.shape.extentList.prod * elementSize a.dtype < 2 ^ 64) :
    Grib2.Addressable a.shape (elementSize a.dtype) := by
  obtain ⟨hsound, -, -⟩ := accepted hcheck
  have hshape := hsound.2.2
  simp only [validateShape, Bool.and_eq_true, List.all_eq_true, decide_eq_true_eq] at hshape
  have hfour : elementSize a.dtype = 4 := by rw [hdtype]; rfl
  refine ⟨hshape.1.1, hshape.1.2, hshape.2, by rw [hfour] at hlt; omega, hlt, hd.offset_nonneg,
    fun is his => ?_⟩
  exact lt_of_le_of_lt (Nat.mul_le_mul_right _ (Nat.le_succ _)) (hd.offset_lt is his)

/-- The driver reads the layout of the shape in the copy. -/
theorem grib2Write_eq (haddr : Grib2.Addressable a.shape (elementSize a.dtype))
    (hdtype : a.dtype = some .f32) (staged : List UInt8) :
    grib2Write staged a.dtype a.shape =
      .ofMemory (gather staged (elementSize a.dtype) a.hostPlaces) := by
  have hprod : Grib2.totalElements a.shape ≠ 0 := by
    rw [haddr.totalElements_eq]
    exact (List.prod_pos_iff_forall_pos_nat.mpr haddr.extentList_pos).ne'
  have hsize : elementSize a.dtype ≠ 0 := by
    rw [hdtype]
    decide
  rw [grib2Write, if_neg (not_not.mpr hdtype), if_neg (by simp [hprod, hsize]),
    haddr.encodeBytes_eq, hostPlaces]

/-- A field whose size wraps does not reach the encoder whole. -/
theorem not_stored_grib2_of_wrap (hcheck : a.check = .ok) (hdtype : a.dtype = some .f32)
    (hlarge : 2 ^ 64 ≤ a.shape.extentList.prod * elementSize a.dtype) {host : List UInt8}
    (hcovers : a.Covers host) : ¬ a.Stored .grib2 := by
  intro h
  obtain ⟨hsound, hpayload, hne⟩ := accepted hcheck
  have hshape := hsound.2.2
  simp only [validateShape, Bool.and_eq_true, List.all_eq_true, decide_eq_true_eq] at hshape
  -- the field is not empty: its byte count would wrap around to zero
  have hsome : Grib2.totalElements a.shape ≠ 0 := fun hzero => by
    rw [Grib2.totalElements_mod hshape.1.1 hshape.1.2 hshape.2] at hzero
    refine hne (hpayload.trans (Nat.mod_eq_zero_of_dvd ?_))
    exact Dvd.dvd.mul_right (Nat.dvd_of_mod_eq_zero hzero) _
  obtain hout | ⟨staged, -, hencode⟩ := encode_cases hcheck .grib2 host
  · exact not_stored_of_outside hcovers hout h
  · rw [WriteDriver.write, grib2Write, if_neg (not_not.mpr hdtype),
      if_neg (by simp [hsome, hsound.2.1])] at hencode
    cases hbytes : Grib2.encodeBytes staged a.shape (elementSize a.dtype) with
    | none =>
      rw [hbytes] at hencode
      exact not_stored_of_outside hcovers hencode h
    -- what was encoded is shorter than the field
    | some bytes =>
      rw [hbytes] at hencode
      obtain hrefused | ⟨bytes', hhanded, hgather⟩ := h host hcovers
      · rw [hencode] at hrefused
        cases hrefused
      · rw [hencode] at hhanded
        obtain rfl := Encoded.handed.inj hhanded
        have hshort := Grib2.length_encodeBytes hbytes
        rw [length_gather hgather, hostPlaces, length_places] at hshort
        omega

/-- GRIB2 stores what has the right span. -/
theorem stored_grib2_of_span (hcheck : a.check = .ok) (hd : a.Describes)
    (hdtype : a.dtype = some .f32) (hspan : a.span = a.shape.extentList.prod) :
    a.Stored .grib2 := by
  intro host hcovers
  have hlen := (covers_iff hcheck hd).mp hcovers
  rw [hspan] at hlen
  have hlt := bytes_lt hcheck hd hspan.ge
  have hplaces : ∀ k ∈ a.hostPlaces, (k + 1) * elementSize a.dtype ≤
      a.shape.extentList.prod * elementSize a.dtype := fun k hk => by
    rw [← hspan]
    exact Nat.mul_le_mul_right _ (place_lt_span hcheck hd hk)
  have hgather := gather_eq_some hcovers
  refine .inr ⟨_, ?_, hgather⟩
  rw [encode_of_lt hcheck .grib2 host hlt, if_pos hlen, WriteDriver.write,
    grib2Write_eq (addressable hcheck hd hdtype hlt) hdtype, gather_take hplaces hlen, hgather]
  rfl

/-- The smallest host array that covers the layout. -/
def leastHost (a : WriteArgs) : List UInt8 := List.replicate (a.span * elementSize a.dtype) 0

/-- The smallest host array covers the layout. -/
theorem covers_leastHost (hcheck : a.check = .ok) (hd : a.Describes) : a.Covers a.leastHost :=
  (covers_iff hcheck hd).mpr (by rw [leastHost, List.length_replicate])

theorem span_of_stored_grib2 (hcheck : a.check = .ok) (hd : a.Describes)
    (hdtype : a.dtype = some .f32) (h : a.Stored .grib2) : a.span = a.shape.extentList.prod := by
  have hcovers := covers_leastHost hcheck hd
  have hlen : a.leastHost.length = a.span * elementSize a.dtype := List.length_replicate
  obtain ⟨hsound, hpayload, hne⟩ := accepted hcheck
  have hsize : 0 < elementSize a.dtype := Nat.pos_of_ne_zero hsound.2.1
  -- the byte count wraps around, or it is exact
  rcases Nat.lt_or_ge (a.shape.extentList.prod * elementSize a.dtype) (2 ^ 64) with hlt | hlarge
  · have hencode := encode_of_lt hcheck .grib2 a.leastHost hlt
    rw [hlen, WriteDriver.write, grib2Write_eq (addressable hcheck hd hdtype hlt) hdtype] at hencode
    rcases Nat.lt_trichotomy a.span a.shape.extentList.prod with hless | heq | hmore
    · -- the copy reads past the end of the host array
      refine absurd h (not_stored_of_outside hcovers ?_)
      rw [hencode, if_neg]
      exact Nat.not_le.mpr (Nat.mul_lt_mul_of_pos_right hless hsize)
    · exact heq
    · -- the driver reads past the end of the copy
      refine absurd h (not_stored_of_outside hcovers ?_)
      have hmore := Nat.mul_lt_mul_of_pos_right hmore hsize
      rw [hencode, if_pos hmore.le, gather_eq_none (k := a.span - 1)]
      · rfl
      · exact mem_places.mpr ⟨_, within_last (extentList_pos hcheck), rfl⟩
      · rw [List.length_take, hlen]
        exact (Nat.min_le_left _ _).trans_lt hmore
  · exact absurd h (not_stored_grib2_of_wrap hcheck hdtype hlarge hcovers)

/-- A field that GRIB2 refuses has been copied first. -/
theorem stored_refused_iff (hcheck : a.check = .ok) (hd : a.Describes)
    (hdtype : a.dtype ≠ some .f32) :
    a.Stored .grib2 ↔ a.payloadBytes ≤ a.span * elementSize a.dtype := by
  constructor
  · intro h
    by_contra hshort
    refine not_stored_of_outside (covers_leastHost hcheck hd) ?_ h
    rw [encode, memcpy, leastHost, List.length_replicate, if_neg (by omega)]
  · intro hle host hcovers
    have hlen := (covers_iff hcheck hd).mp hcovers
    left
    rw [encode, memcpy, if_pos (by omega)]
    show grib2Write _ _ _ = _
    rw [grib2Write, if_pos hdtype]

/-- **Strided writes.** Of the layouts that describe an array in memory, a driver stores exactly
those that survive the copy. -/
theorem stored_iff (a : WriteArgs) (driver : WriteDriver) (hcheck : a.check = .ok)
    (hd : a.Describes) : a.Stored driver ↔ a.Survives driver := by
  have hcontiguous : driver.write = encodeContiguous →
      (a.Stored driver ↔ Packed a.shape.extentList a.shape.strideList) := fun hdriver =>
    ⟨packed_of_stored hcheck hd hdriver, stored_of_packed hcheck hd hdriver⟩
  cases driver with
  | grib2 =>
    rw [Survives]
    split
    · next hdtype =>
      exact ⟨span_of_stored_grib2 hcheck hd hdtype, stored_grib2_of_span hcheck hd hdtype⟩
    · next hdtype => exact stored_refused_iff hcheck hd hdtype
  | netcdf => exact hcontiguous rfl
  | nczarr => exact hcontiguous rfl
  | zarr => exact hcontiguous rfl

end Copy

/-- Two rows of two bytes each, in an array with rows of three. -/
def clipped : WriteArgs := ⟨0, [116], false, some .u8, Grib2.clippedRows⟩

/-- The same two rows one after the other. -/
def wholeRows : WriteArgs :=
  ⟨0, [116], false, some .u8, ⟨2, fun _ => 2, fun d => if d.val = 0 then 2 else 1⟩⟩

/-- A layout that is checked cell by cell. -/
theorem describes_of_cells {a : WriteArgs}
    (h : ∀ is ∈ cells a.shape.extentList, 0 ≤ offset is a.shape.strideList ∧
      ((offset is a.shape.strideList).toNat + 1) * elementSize a.dtype < 2 ^ 64) : a.Describes :=
  ⟨fun is his => (h is (mem_cells.mpr his)).1, fun is his => (h is (mem_cells.mpr his)).2⟩

theorem stored_wholeRows : wholeRows.Stored .netcdf := by
  refine (stored_iff wholeRows .netcdf (by decide) (describes_of_cells (by decide))).mpr ?_
  show Packed _ _
  decide

/-- NetCDF stores the third byte of the first row for the first byte of the second. -/
theorem clipped_misplaced :
    clipped.check = .ok ∧ clipped.Describes ∧ ¬ clipped.Stored .netcdf := by
  refine ⟨by decide, describes_of_cells (by decide), fun h => ?_⟩
  have hcovers : ∀ k ∈ clipped.hostPlaces, (k + 1) * elementSize clipped.dtype ≤ 5 := by decide
  have hencode : clipped.encode .netcdf [1, 2, 3, 4, 5] = .handed [1, 2, 3, 4] := by decide
  obtain hrefused | ⟨bytes, hhanded, hgather⟩ := h [1, 2, 3, 4, 5] hcovers
  · rw [hencode] at hrefused
    cases hrefused
  · rw [hencode] at hhanded
    obtain rfl := Encoded.handed.inj hhanded
    revert hgather
    decide

end WriteArgs

end Amio
