import Amio.Drivers.Grib2Read

/-!
# The GRIB2 driver: writing a record

`GRIB2_Driver::write` builds a message with four calls of `nceplibs-g2c` and then commits it with
one `fwrite`. Section 3 declares the points of a grid, and the grid is taken from the last two
dimensions of the field; `g2_addfield` is given every element. The two numbers come from one shape
and are never compared. `point_counts_agree_iff` says for which shapes they agree: one grid for each
message, as in rank one and two, and beyond that only where the number of elements wraps around.

The library is a parameter: what a call returns, and what the message buffer holds, may depend on
all the calls made on the buffer so far.
-/

namespace Amio

/-- The number of points in the last two dimensions. -/
def Shape.gridPoints (shape : Shape) : Nat := (shape.extentList.drop (shape.rank.toNat - 2)).prod

/-- The number of such grids: the extents before the last two, multiplied. -/
def Shape.grids (shape : Shape) : Nat := (shape.extentList.take (shape.rank.toNat - 2)).prod

namespace Grib2

open RowMajor

/-- `Grib2Settings`, with the fields that only the encoder uses. -/
structure MessageSettings extends Grib2Settings where
  center : Int64 := 7
  subcenter : Int64 := 0
  masterTableVersion : Int64 := 2
  localTableVersion : Int64 := 1
  significanceOfRefTime : Int64 := 1
  productionStatus : Int64 := 0
  typeOfData : Int64 := 1
  gdtNumber : Int64 := 0
  latFirst : Int64 := 90000000
  lonFirst : Int64 := 0
  latLast : Int64 := -90000000
  lonLast : Int64 := 359000000
  decimalScaleFactor : Int64 := 0
  nParallel : Int64 := 0

/-- `GRIB2_DRT`. -/
inductive Drt
  | adaptiveEntropyCoding | losslessJpeg2000
  deriving DecidableEq, Repr

/-- The template number of a data representation. -/
def Drt.number : Drt → Int64
  | .adaptiveEntropyCoding => 42
  | .losslessJpeg2000 => 40

/-- The calls that fill the message buffer, with what the driver passes. The values of `fld` are
given as bytes. -/
inductive G2cCall
  | create (listsec0 listsec1 : List Int64)
  | addgrid (igds igdstmpl : List Int64)
  | addfield (ipdsnum : Int64) (ipdstmpl : List Int64) (idrsnum : Int64) (idrstmpl : List Int64)
      (fld : List UInt8) (ngrdpts ibmap : Int64)
  | gribend
  deriving DecidableEq

/-- The library as the encoder sees it: what the last of the calls returns, and the message buffer
after them. -/
structure Encoder where
  code : List G2cCall → Int64
  cgrib : List G2cCall → List UInt8

/-- The state of the driver that writing depends on. `outFile` says that `out_file_` is open. -/
structure Writer where
  initialized : Bool
  settings : MessageSettings
  activeDrt : Drt
  outFile : Bool

/-! ### Templates -/

/-- A direction increment of a grid, `Di` or `Dj`. -/
def directionIncrement (first last : Int64) (n : Int) : Outcome String Int64 :=
  if 1 < n then do
    let span ← checked (last.toInt - first.toInt)
    let step ← checked |span.tdiv (n - 1)|
    return Int64.ofInt step
  else .done 0

/-- The entries that the two grid templates have in common; `entry17` is the one they differ in. -/
def gdtEntries (s : MessageSettings) (ni nj : Int) (di entry17 : Int64) : List Int64 :=
  -- shape of the earth, its radius and axes
  [6, 0, 0, 0, 0, 0, 0,
    Int64.ofInt ni, Int64.ofInt nj,
    -- basic angle and its subdivisions
    0, 0,
    -- 48: both direction increments are given
    s.latFirst, s.lonFirst, 48, s.latLast, s.lonLast, di, entry17, 0]

/-- `build_gdt_3_0`. -/
def buildGdt3_0 (s : MessageSettings) (ni nj : Int) : Outcome String (List Int64) := do
  let di ← directionIncrement s.lonFirst s.lonLast ni
  let dj ← directionIncrement s.latLast s.latFirst nj
  return gdtEntries s ni nj di dj

/-- `build_gdt_3_40`. -/
def buildGdt3_40 (s : MessageSettings) (ni nj : Int) : Outcome String (List Int64) := do
  let di ← directionIncrement s.lonFirst s.lonLast ni
  return gdtEntries s ni nj di s.nParallel

/-- The switch over `gdt_number`. -/
def buildGdt (s : MessageSettings) (ni nj : Int) : Outcome String (List Int64) :=
  if s.gdtNumber = 0 then buildGdt3_0 s ni nj
  else if s.gdtNumber = 40 then buildGdt3_40 s ni nj
  else .threw ("GRIB2_Driver::write: unsupported GDT number " ++ toString s.gdtNumber ++
    ". Zero record bytes emitted.")

/-- `build_drs_template`. -/
def buildDrsTemplate (drt : Drt) (s : MessageSettings) : List Int64 :=
  match drt with
  | .losslessJpeg2000 => [0, 0, s.decimalScaleFactor, 0, 0, 0, 255]
  | .adaptiveEntropyCoding => [0, 0, s.decimalScaleFactor, 0, 0, 0, 0, 0]

/-- `listsec1`: the reference time is a fixed date. -/
def listsec1 (s : MessageSettings) : List Int64 :=
  [s.center, s.subcenter, s.masterTableVersion, s.localTableVersion, s.significanceOfRefTime,
    1970, 1, 1, 0, 0, 0, s.productionStatus, s.typeOfData]

/-- `igds`, for a grid of the given number of points. -/
def igds (s : MessageSettings) (points : Int) : List Int64 :=
  [0, Int64.ofInt points, 0, 0, s.gdtNumber]

/-! ### The message -/

/-- A vector of so many bytes, which may be more than a vector can have. -/
def allocate (bytes : Nat) : Outcome String Unit :=
  .throwIf (2 ^ 63 ≤ bytes) "cannot create std::vector larger than max_size()"

/-- `shape.extents[i]`. -/
def extentAt (shape : Shape) (i : Int) : Outcome String Int :=
  if h : 0 ≤ i ∧ i.toNat < maxRank then .done (shape.extents ⟨i.toNat, h.2⟩) else .undefined

/-- `ni` and `nj`: the last two extents, or a single row of elements. -/
def gridSize (shape : Shape) (numElements : Nat) : Outcome String (Int × Int) :=
  if 2 ≤ shape.rank then do
    let nj ← extentAt shape (shape.rank - 2)
    let ni ← extentAt shape (shape.rank - 1)
    return (ni, nj)
  else .done (i64 numElements, 1)

/-- `encode_ptr`: the staging buffer itself, or a packed copy. -/
def encodePtr (src : List UInt8) (shape : Shape) (elemSize : Nat) : Outcome String (List UInt8) :=
  if isContiguousRowMajor shape then .done src
  else do
    allocate (u64 (totalElements shape * elemSize))
    .ofOption (packRowMajor src shape elemSize)

/-- A call of the library on the buffer; a code that is not positive is an error. -/
def Encoder.call (g : Encoder) (calls : List G2cCall) (c : G2cCall) (failed : String) :
    Outcome String (List G2cCall) := do
  .throwIf (g.code (calls ++ [c]) ≤ 0) failed
  return calls ++ [c]

/-- The message that the calls have completed, of the length that the last of them returned. -/
def Encoder.message (g : Encoder) (calls : List G2cCall) : List UInt8 :=
  (g.cgrib calls).take (g.code calls).toNatClampNeg

/-- `GRIB2_Driver::write` up to the complete message: the calls that made it. -/
def Writer.encode (w : Writer) (g : Encoder) (src : List UInt8) (dtype : Option Dtype)
    (shape : Shape) : Outcome String (List G2cCall) := do
  let s := w.settings
  let numElements := totalElements shape
  .throwIf (w.initialized = false) "GRIB2_Driver::write called before successful initialization"
  .throwIf (dtype ≠ some .f32) ("GRIB2_Driver::write: only AMIO_DTYPE_F32 fields can be encoded " ++
    "to GRIB2 grid-point data. Zero record bytes emitted.")
  .throwIf (numElements = 0 ∨ elementSize dtype = 0)
    "GRIB2_Driver::write: empty or invalid field shape. Zero record bytes emitted."
  -- the strides are packed away before the encoding
  let payload ← encodePtr src shape (elementSize dtype)
  let size ← gridSize shape numElements
  -- room for the message
  allocate (u64 (u64 (numElements * 4) + 8192 + numElements))
  let created ← g.call [] (.create [s.discipline, 2] (listsec1 s))
    "GRIB2_Driver::write: g2_create failed (Section 0/1). Zero record bytes emitted."
  -- the sections one after the other; a failure leaves nothing on disk
  let gdt ← buildGdt s size.1 size.2
  let points ← checked (size.1 * size.2)
  let gridded ← g.call created (.addgrid (igds s points) gdt)
    "GRIB2_Driver::write: g2_addgrid failed (Section 3). Zero record bytes emitted."
  let pdt ← .ofExcept (buildPdt s.toGrib2Settings)
  allocate (numElements * 4)
  let fld ← .ofOption (memcpy payload 0 (u64 (numElements * 4)))
  let filled ← g.call gridded
    (.addfield s.pdtNumber pdt w.activeDrt.number (buildDrsTemplate w.activeDrt s) fld
      (Int64.ofNat numElements) 255)
    "GRIB2_Driver::write: g2_addfield failed (Section 4/5/7). Zero record bytes emitted."
  g.call filled .gribend
    "GRIB2_Driver::write: g2_gribend failed (Section 8). Zero record bytes emitted."

/-- Committing a complete message; `fwrite` takes a number of bytes from its beginning. -/
def Writer.commit (w : Writer) (g : Encoder) (fwrite : List UInt8 → Nat) (calls : List G2cCall) :
    Outcome String Unit × List UInt8 :=
  if w.outFile then
    -- a length beyond the buffer would be read past its end
    if (g.cgrib calls).length < (g.code calls).toNatClampNeg then (.undefined, [])
    else
      let written := (g.message calls).take (fwrite (g.message calls))
      (.throwIf (written.length ≠ (g.message calls).length)
        "GRIB2_Driver::write: short write committing GRIB2 message to disk.", written)
  else (.done (), [])

/-- `GRIB2_Driver::write`: what it comes to, and the bytes that it emits. -/
def Writer.write (w : Writer) (g : Encoder) (fwrite : List UInt8 → Nat) (src : List UInt8)
    (dtype : Option Dtype) (shape : Shape) : Outcome String Unit × List UInt8 :=
  match w.encode g src dtype shape with
  | .done calls => w.commit g fwrite calls
  | .threw e => (.threw e, [])
  | .undefined => (.undefined, [])

/-! ### The grid of a shape -/

section Grid

variable {shape : Shape}

/-- Grids times points is the number of elements. -/
theorem grids_mul_gridPoints (shape : Shape) :
    shape.grids * shape.gridPoints = shape.extentList.prod := by
  rw [Shape.grids, Shape.gridPoints, List.prod_take_mul_prod_drop]

/-- A field without elements is not accepted, and a field that has some has a valid shape. -/
theorem valid_of_totalElements (h : totalElements shape ≠ 0) :
    1 ≤ shape.rank ∧ shape.rank ≤ maxRank ∧ ∀ d ∈ dims shape.rank, 0 < shape.extents d := by
  rw [totalElements] at h
  split at h
  · exact absurd rfl h
  · next hrank =>
    split at h
    · exact absurd rfl h
    · next hany =>
      refine ⟨by omega, by omega, fun d hd => ?_⟩
      by_contra hle
      exact hany (List.any_eq_true.mpr ⟨d, hd, by simpa using hle⟩)

/-- The last two extents are those of the grid. -/
theorem gridPoints_eq (hrank : 2 ≤ shape.rank) (hle : shape.rank ≤ maxRank)
    (hj : shape.rank.toNat - 2 < maxRank) (hi : shape.rank.toNat - 1 < maxRank) :
    shape.gridPoints = (shape.extents ⟨_, hj⟩).toNat * (shape.extents ⟨_, hi⟩).toNat := by
  have hnat : shape.rank = shape.rank.toNat := (Int.toNat_of_nonneg (by omega)).symm
  have hmax : shape.rank.toNat ≤ maxRank := by omega
  have hnext : shape.rank.toNat - 2 + 1 = shape.rank.toNat - 1 := by omega
  have hlength : shape.extentList.length = shape.rank.toNat := by
    rw [Shape.extentList, List.length_map, hnat, Int.toNat_natCast, length_dims hmax]
  have hend : shape.extentList.drop (shape.rank.toNat - 1 + 1) = [] := by
    rw [List.drop_eq_nil_iff, hlength]
    omega
  rw [Shape.gridPoints, List.drop_eq_getElem?_toList_append,
    getElem?_extentList hnat hmax (by omega), hnext, List.drop_eq_getElem?_toList_append,
    getElem?_extentList hnat hmax (by omega), hend]
  simp

end Grid

/-! ### What the message declares -/

/-- The number of data points of Section 3. -/
def G2cCall.declared : G2cCall → Option Int64
  | .addgrid igds _ => igds[1]?
  | _ => none

/-- `Ni` of the grid template. -/
def G2cCall.ni : G2cCall → Option Int64
  | .addgrid _ igdstmpl => igdstmpl[7]?
  | _ => none

/-- `Nj` of the grid template. -/
def G2cCall.nj : G2cCall → Option Int64
  | .addgrid _ igdstmpl => igdstmpl[8]?
  | _ => none

/-- The number of values that `g2_addfield` is given. -/
def G2cCall.passed : G2cCall → Option Int64
  | .addfield _ _ _ _ _ ngrdpts _ => some ngrdpts
  | _ => none

/-- The point counts of a message agree: the points of Section 3 are those of the grid template, and
as many as the values passed. -/
def PointCountsAgree (calls : List G2cCall) : Prop :=
  ∃ n ni nj, calls.findSome? G2cCall.declared = some n ∧ calls.findSome? G2cCall.ni = some ni ∧
    calls.findSome? G2cCall.nj = some nj ∧ ni * nj = n ∧ calls.findSome? G2cCall.passed = some n

/-- Unpacking goes by the number of points that Section 3 declares. -/
def GoesBySection3 {α : Type} (g : Encoder) (unpack : Unpack α) (calls : List G2cCall) : Prop :=
  ∀ fieldNumber fld, unpack (g.message calls) fieldNumber = (0, some fld) →
    calls.findSome? G2cCall.declared = some fld.ngrdpts

/-- Wherever the message lies in a file, reading it back yields `n` points. -/
def ReadsBack {α : Type} (unpack : Unpack α) (message : List UInt8) (n : Nat) : Prop :=
  ∀ (r : Reader) (fp : GribFile) (name : String) (loc : GribRecordLocation) (full : List α),
    (∀ seekFailed shortRead,
      readBytes fp loc.offset loc.length seekFailed shortRead = .ok message) →
    r.unpackRecord unpack (some fp) name loc = .done full → full.length = n

section Counts

variable {w : Writer} {g : Encoder} {src : List UInt8} {dtype : Option Dtype} {shape : Shape}
  {calls : List G2cCall}

/-- A call that succeeds is the next one. -/
theorem Encoder.call_eq_done {c : G2cCall} {failed : String} {calls' : List G2cCall}
    (h : g.call calls c failed = .done calls') : calls' = calls ++ [c] := by
  rw [Encoder.call, Outcome.bind_eq_done] at h
  obtain ⟨-, -, h⟩ := h
  exact (Outcome.done.inj h).symm

/-- Both templates carry the grid. -/
theorem buildGdt_eq_done {s : MessageSettings} {ni nj : Int} {gdt : List Int64}
    (h : buildGdt s ni nj = .done gdt) : ∃ di entry17, gdt = gdtEntries s ni nj di entry17 := by
  unfold buildGdt at h
  split at h
  · simp only [buildGdt3_0, Outcome.bind_eq_done, Outcome.pure_eq, Outcome.done.injEq] at h
    obtain ⟨di, -, dj, -, rfl⟩ := h
    exact ⟨di, dj, rfl⟩
  · split at h
    · simp only [buildGdt3_40, Outcome.bind_eq_done, Outcome.pure_eq, Outcome.done.injEq] at h
      obtain ⟨di, -, rfl⟩ := h
      exact ⟨di, s.nParallel, rfl⟩
    · cases h

/-- What a field that is accepted has led to: the grid of its last two dimensions in Section 3, and
all of its elements in Section 7. -/
theorem encode_eq_done (h : w.encode g src dtype shape = .done calls) :
    totalElements shape ≠ 0 ∧ totalElements shape < 2 ^ 61 ∧
    ∃ ni nj gdt pdt fld, gridSize shape (totalElements shape) = .done (ni, nj) ∧
      IsInt64 (ni * nj) ∧ buildGdt w.settings ni nj = .done gdt ∧
      calls = [.create [w.settings.discipline, 2] (listsec1 w.settings),
        .addgrid (igds w.settings (ni * nj)) gdt,
        .addfield w.settings.pdtNumber pdt w.activeDrt.number
          (buildDrsTemplate w.activeDrt w.settings) fld (Int64.ofNat (totalElements shape)) 255,
        .gribend] := by
  simp only [Writer.encode, Outcome.bind_eq_done, Outcome.throwIf_eq_done, checked_eq_done,
    allocate] at h
  obtain ⟨-, -, -, -, -, hempty, payload, -, ⟨ni, nj⟩, hsize, -, -, created, hcreate, gdt, hgdt,
    points, ⟨hint, rfl⟩, gridded, hgrid, pdt, -, -, hroom, fld, -, filled, hfield, hend⟩ := h
  obtain rfl := Encoder.call_eq_done hcreate
  obtain rfl := Encoder.call_eq_done hgrid
  obtain rfl := Encoder.call_eq_done hfield
  exact ⟨fun hzero => hempty (.inl hzero), by omega, ni, nj, gdt, pdt, fld, hsize, hint, hgdt,
    Encoder.call_eq_done hend⟩

/-- The numbers that the message carries, in terms of the grid. -/
theorem pointCountsAgree_iff {ni nj : Int} (hint : IsInt64 (ni * nj)) {gdt pdt : List Int64}
    {fld : List UInt8} {sec0 sec1 drs : List Int64} {pdtNumber drt : Int64} {n : Nat}
    (hn : n < 2 ^ 61) (hgdt : buildGdt w.settings ni nj = .done gdt)
    (hcalls : calls = [.create sec0 sec1, .addgrid (igds w.settings (ni * nj)) gdt,
      .addfield pdtNumber pdt drt drs fld (Int64.ofNat n) 255, .gribend]) :
    calls.findSome? G2cCall.declared = some (Int64.ofInt (ni * nj)) ∧
      (PointCountsAgree calls ↔ ni * nj = n) := by
  obtain ⟨di, entry17, rfl⟩ := buildGdt_eq_done hgdt
  subst hcalls
  refine ⟨rfl, ?_, fun hagree => ?_⟩
  · rintro ⟨m, -, -, hdeclared, -, -, -, hpassed⟩
    obtain rfl := Option.some.inj (hdeclared : some (Int64.ofInt (ni * nj)) = some m)
    have hsame := Option.some.inj (hpassed : some (Int64.ofNat n) = some (Int64.ofInt (ni * nj)))
    have hvalue := congrArg Int64.toInt hsame
    rw [Int64.toInt_ofNat_of_lt (by omega), Int64.toInt_ofInt_of_le hint.1 hint.2] at hvalue
    exact hvalue.symm
  · refine ⟨Int64.ofInt (ni * nj), Int64.ofInt ni, Int64.ofInt nj, rfl, rfl, rfl,
      (Int64.ofInt_mul ni nj).symm, ?_⟩
    rw [hagree, Int64.ofInt_eq_ofNat]
    rfl

/-- A multiple of `grid` comes to `grid` modulo the machine's range. -/
theorem mul_mod_eq_iff {grids grid m : Nat} (hgrids : 0 < grids) (hgrid : grid < m) :
    grids * grid % m = grid ↔ m ∣ grid * (grids - 1) := by
  obtain ⟨k, rfl⟩ : ∃ k, grids = k + 1 := ⟨grids - 1, by omega⟩
  have hsplit : (k + 1) * grid = grid + grid * k := by ring
  rw [hsplit, Nat.add_sub_cancel]
  constructor
  · intro h
    have hdvd := Nat.dvd_sub_mod (n := m) (grid + grid * k)
    rwa [h, Nat.add_sub_cancel_left] at hdvd
  · rintro ⟨c, hc⟩
    rw [hc, Nat.add_mul_mod_self_left, Nat.mod_eq_of_lt hgrid]

/-- The grid of a field is all of it when it is the only one. -/
theorem gridSize_eq_iff {ni nj : Int} (hempty : totalElements shape ≠ 0)
    (hroom : totalElements shape < 2 ^ 61)
    (hsize : gridSize shape (totalElements shape) = .done (ni, nj)) (hint : IsInt64 (ni * nj)) :
    ni * nj = (totalElements shape : Int) ↔ 2 ^ 64 ∣ shape.gridPoints * (shape.grids - 1) := by
  obtain ⟨hpos, hle, hextents⟩ := valid_of_totalElements hempty
  have hmax : (maxRank : Int) = 7 := rfl
  have hgrids : 0 < shape.grids := by
    refine List.prod_pos_iff_forall_pos_nat.mpr fun e he => ?_
    exact extentList_pos hextents e (List.mem_of_mem_take he)
  unfold gridSize at hsize
  split at hsize
  · next hrank =>
    have hj : shape.rank.toNat - 2 < maxRank := by omega
    have hi : shape.rank.toNat - 1 < maxRank := by omega
    have hjnat : (shape.rank - 2).toNat = shape.rank.toNat - 2 := by omega
    have hinat : (shape.rank - 1).toNat = shape.rank.toNat - 1 := by omega
    have hjread : extentAt shape (shape.rank - 2) = .done (shape.extents ⟨_, hj⟩) := by
      simp only [extentAt, hjnat]
      exact dif_pos ⟨by omega, hj⟩
    have hiread : extentAt shape (shape.rank - 1) = .done (shape.extents ⟨_, hi⟩) := by
      simp only [extentAt, hinat]
      exact dif_pos ⟨by omega, hi⟩
    simp only [hjread, hiread, Outcome.done_bind, Outcome.pure_eq, Outcome.done.injEq,
      Prod.mk.injEq] at hsize
    obtain ⟨rfl, rfl⟩ := hsize
    have hjlt : ((shape.rank.toNat - 2 : Nat) : Int) < shape.rank := by omega
    have hilt : ((shape.rank.toNat - 1 : Nat) : Int) < shape.rank := by omega
    have hjpos := hextents ⟨_, hj⟩ (mem_dims.mpr hjlt)
    have hipos := hextents ⟨_, hi⟩ (mem_dims.mpr hilt)
    have hgrid : (shape.gridPoints : Int) = shape.extents ⟨_, hi⟩ * shape.extents ⟨_, hj⟩ := by
      rw [gridPoints_eq hrank hle hj hi, Nat.cast_mul, Int.toNat_of_nonneg hjpos.le,
        Int.toNat_of_nonneg hipos.le, Int.mul_comm]
    have hlt := hint.2
    rw [← hgrid, totalElements_mod hpos hle hextents, ← grids_mul_gridPoints, Nat.cast_inj,
      eq_comm]
    exact mul_mod_eq_iff hgrids (by omega)
  · next hrank =>
    -- one row: the extent itself, and no other dimension
    simp only [Outcome.done.injEq, Prod.mk.injEq] at hsize
    obtain ⟨rfl, rfl⟩ := hsize
    have hone : shape.rank.toNat - 2 = 0 := by omega
    have hsingle : shape.grids = 1 := by rw [Shape.grids, hone, List.take_zero, List.prod_nil]
    rw [hsingle, Int.mul_one, i64_of_isInt64 ⟨by omega, by omega⟩]
    simp

end Counts

/-! ### Results -/

/-- A field that is not accepted leaves the output file as it was. -/
theorem write_rejected (w : Writer) (g : Encoder) (fwrite : List UInt8 → Nat) {src : List UInt8}
    {dtype : Option Dtype} {shape : Shape} (h : ∀ calls, w.encode g src dtype shape ≠ .done calls) :
    (∀ u, (w.write g fwrite src dtype shape).1 ≠ .done u) ∧
      (w.write g fwrite src dtype shape).2 = [] := by
  rw [Writer.write]
  cases hencode : w.encode g src dtype shape with
  | done calls => exact absurd hencode (h calls)
  | threw e => simp
  | undefined => simp

/-- A record of the message has the points that Section 3 declares. -/
theorem readsBack_of_declared {α : Type} {g : Encoder} {unpack : Unpack α} {calls : List G2cCall}
    {m : Int64} {n : Nat} (hlib : GoesBySection3 g unpack calls)
    (hdeclared : calls.findSome? G2cCall.declared = some m) (hm : m.toNatClampNeg = n) :
    ReadsBack unpack (g.message calls) n := by
  intro r fp name loc full hplace hfull
  obtain ⟨fp', cgrib, gfld, seekFailed, shortRead, hfile, hread, hunpack, -, hlen, -⟩ :=
    unpackRecord_eq_done hfull
  obtain rfl := Option.some.inj hfile
  obtain rfl := Except.ok.inj ((hplace seekFailed shortRead).symm.trans hread)
  obtain rfl := Option.some.inj (hdeclared.symm.trans (hlib _ _ hunpack))
  exact hlen.trans hm

/-- **Point counts.** Of a field that `write` accepts, the message declares as many points as it has
values, and reading it back yields as many, exactly when the last two dimensions are all of the
field, or the number of its elements wraps around to theirs. -/
theorem point_counts_agree_iff {α : Type} (w : Writer) (g : Encoder) (unpack : Unpack α)
    (fwrite : List UInt8 → Nat) (src : List UInt8) (dtype : Option Dtype) (shape : Shape) :
    (∀ calls, w.encode g src dtype shape = .done calls → GoesBySection3 g unpack calls →
      ((PointCountsAgree calls ∧ ReadsBack unpack (g.message calls) (totalElements shape)) ↔
        2 ^ 64 ∣ shape.gridPoints * (shape.grids - 1))) ∧
    ((∀ calls, w.encode g src dtype shape ≠ .done calls) →
      (∀ u, (w.write g fwrite src dtype shape).1 ≠ .done u) ∧
        (w.write g fwrite src dtype shape).2 = []) := by
  refine ⟨fun calls haccept hlib => ?_, fun hreject => write_rejected w g fwrite hreject⟩
  obtain ⟨hempty, hroom, ni, nj, gdt, pdt, fld, hsize, hint, hgdt, hcalls⟩ :=
    encode_eq_done haccept
  obtain ⟨hdeclared, hagree⟩ := pointCountsAgree_iff hint hroom hgdt hcalls
  rw [← gridSize_eq_iff hempty hroom hsize hint, hagree]
  refine ⟨And.left, fun hpoints => ⟨hpoints, readsBack_of_declared hlib hdeclared ?_⟩⟩
  rw [hpoints, Int64.ofInt_eq_ofNat]
  exact Int64.toNatClampNeg_ofNat_of_lt (by omega)

/-- A library that refuses nothing; a message is one byte, the number of points of Section 3. -/
def countEncoder : Encoder :=
  ⟨fun _ => 1,
    fun calls => [UInt8.ofNat ((calls.findSome? G2cCall.declared).getD 0).toNatClampNeg]⟩

/-- Unpacking such a message. -/
def countUnpack : Unpack Nat := fun message _ =>
  (0, some ⟨Int64.ofNat (message.headD 0).toNat, some (List.replicate (message.headD 0).toNat 0)⟩)

/-- A driver with the default settings. -/
def defaultWriter : Writer := ⟨true, {}, .adaptiveEntropyCoding, true⟩

/-- Two in each of `rank` dimensions. -/
def twos (rank : Int) : Shape := ⟨rank, fun _ => 2, fun _ => 0⟩

/-- The calls that write `n` zeros on a grid of two by two. -/
def twosCalls (n : Nat) : List G2cCall :=
  [.create [0, 2] (listsec1 {}), .addgrid (igds {} 4) (gdtEntries {} 2 2 359000000 180000000),
    .addfield 0 (buildPdt4_0 {}) 42 (buildDrsTemplate .adaptiveEntropyCoding {})
      (List.replicate (n * 4) 0) (Int64.ofNat n) 255,
    .gribend]

theorem message_twosCalls (n : Nat) : countEncoder.message (twosCalls n) = [4] := rfl

theorem goesBySection3_twosCalls (n : Nat) :
    GoesBySection3 countEncoder countUnpack (twosCalls n) := by
  intro fieldNumber fld hunpack
  have hfld := Option.some.inj (Prod.mk.inj hunpack).2
  rw [← hfld, message_twosCalls]
  rfl

theorem point_counts_agree_of_square :
    defaultWriter.encode countEncoder (List.replicate 16 0) (some .f32) (twos 2) =
        .done (twosCalls 4) ∧
      PointCountsAgree (twosCalls 4) ∧
      ReadsBack countUnpack (countEncoder.message (twosCalls 4)) 4 := by
  have hencode : defaultWriter.encode countEncoder (List.replicate 16 0) (some .f32) (twos 2) =
      .done (twosCalls 4) := by decide +kernel
  exact ⟨hencode, ((point_counts_agree_iff defaultWriter countEncoder countUnpack List.length
    (List.replicate 16 0) (some .f32) (twos 2)).1 _ hencode (goesBySection3_twosCalls 4)).mpr
      (by decide)⟩

/-- Of a cube, Section 3 declares one of the two grids that are written, and reading the message
back yields the points of one. -/
theorem cube_declares_four :
    defaultWriter.encode countEncoder (List.replicate 32 0) (some .f32) (twos 3) =
        .done (twosCalls 8) ∧
      GoesBySection3 countEncoder countUnpack (twosCalls 8) ∧
      (twosCalls 8).findSome? G2cCall.declared = some 4 ∧
      (twosCalls 8).findSome? G2cCall.passed = some 8 ∧ ¬ PointCountsAgree (twosCalls 8) ∧
      ¬ ReadsBack countUnpack (countEncoder.message (twosCalls 8)) (totalElements (twos 3)) ∧
      defaultWriter.write countEncoder List.length (List.replicate 32 0) (some .f32) (twos 3) =
        (.done (), countEncoder.message (twosCalls 8)) := by
  refine ⟨by decide +kernel, goesBySection3_twosCalls 8, rfl, rfl, ?_, ?_, by decide +kernel⟩
  · rintro ⟨n, -, -, hdeclared, -, -, -, hpassed⟩
    obtain rfl := Option.some.inj (hdeclared : some (4 : Int64) = some n)
    exact absurd (Option.some.inj (hpassed : some (8 : Int64) = some 4)) (by decide)
  · intro hback
    have hfour := hback ⟨true, true, "f", ∅⟩ ⟨[4], by decide⟩ "d" ⟨0, 1, 1⟩ [0, 0, 0, 0]
      (fun _ _ => rfl) (by decide +kernel)
    exact absurd hfour (by decide)

end Grib2

end Amio
