import Mathlib.Data.List.AList

/-!
# The GRIB2 driver: product templates and the record index

GRIB2 records carry no variable names. `GRIB2_Driver` writes the numeric descriptors of a field into
a product definition template, one builder per template number, and on `open_read` it computes a
name back from the template of every record it finds. The layout of each template is written down
three times in the source, in the builder, in `pdt_surface_type_index` and in
`extract_composition_metadata`; this file embeds all three as they stand.

The library `nceplibs-g2c` is not part of the repository: it is the parameter `G2c`.
-/

namespace Amio.Grib2

/-- The fields of `Grib2Settings` that the product templates are built from, with their defaults. -/
structure Grib2Settings where
  discipline : Int64 := 0
  pdtNumber : Int64 := 0
  parameterCategory : Int64 := 0
  parameterNumber : Int64 := 0
  typeOfFirstFixedSurface : Int64 := 100
  scaleFactorFirstSurface : Int64 := 0
  scaledValueFirstSurface : Int64 := 0
  forecastTime : Int64 := 0
  indicatorOfUnitOfTime : Int64 := 1
  chemicalConstituentType : Int64 := 0
  aerosolType : Int64 := 0
  sizeDistParamFirst : Int64 := 0
  sizeDistParamSecond : Int64 := 0
  opticalPropertyType : Int64 := 0
  wavelengthFirstNm : Int64 := 0
  wavelengthLastNm : Int64 := 0
  ensemblePerturbationNumber : Int64 := 0
  statisticalProcess : Int64 := 0
  timeRangeUnit : Int64 := 0
  timeRangeLength : Int64 := 0
  numberOfTimeRangeSpecs : Int64 := 0
  totalMissingFromStatisticalProcess : Int64 := 0
  deriving DecidableEq, Repr

/-- The case labels of the switches over `pdt_number`: the templates the driver supports. -/
inductive Pdt
  | pdt0 | pdt8 | pdt40 | pdt44 | pdt45 | pdt46 | pdt48 | pdt49
  deriving DecidableEq, Repr

/-- The template number of a case label. -/
def Pdt.number : Pdt → Int64
  | .pdt0 => 0
  | .pdt8 => 8
  | .pdt40 => 40
  | .pdt44 => 44
  | .pdt45 => 45
  | .pdt46 => 46
  | .pdt48 => 48
  | .pdt49 => 49

/-- The case label `switch (pdt_number)` jumps to; `none` is `default`. -/
def Pdt.select (pdtNumber : Int64) : Option Pdt :=
  [Pdt.pdt0, .pdt8, .pdt40, .pdt44, .pdt45, .pdt46, .pdt48, .pdt49].find? fun p =>
    p.number == pdtNumber

@[simp] theorem Pdt.select_number (p : Pdt) : Pdt.select p.number = some p := by
  cases p <;> decide

/-! ### Encoding: the template builders -/

/-- `build_pdt_4_0`, 15 entries. -/
def buildPdt4_0 (s : Grib2Settings) : List Int64 :=
  [s.parameterCategory, s.parameterNumber,
    -- generating process, its ids and the data cutoff
    2, 0, 0, 0, 0,
    s.indicatorOfUnitOfTime, s.forecastTime,
    s.typeOfFirstFixedSurface, s.scaleFactorFirstSurface, s.scaledValueFirstSurface,
    -- second fixed surface: 255 is "missing"
    255, 0, 0]

/-- `build_pdt_4_8`, 29 entries. -/
def buildPdt4_8 (s : Grib2Settings) : List Int64 :=
  [s.parameterCategory, s.parameterNumber,
    2, 0, 0, 0, 0,
    s.indicatorOfUnitOfTime, s.forecastTime,
    s.typeOfFirstFixedSurface, s.scaleFactorFirstSurface, s.scaledValueFirstSurface,
    255, 0, 0,
    -- 15–20: end of the overall time interval
    0, 0, 0, 0, 0, 0,
    -- 21–28: statistical processing
    s.numberOfTimeRangeSpecs, s.totalMissingFromStatisticalProcess, s.statisticalProcess, 2,
    s.timeRangeUnit, s.timeRangeLength, s.indicatorOfUnitOfTime, 0]

/-- `build_pdt_4_40`, 16 entries. -/
def buildPdt4_40 (s : Grib2Settings) : List Int64 :=
  [s.parameterCategory, s.parameterNumber, s.chemicalConstituentType,
    2, 0, 0, 0, 0,
    s.indicatorOfUnitOfTime, s.forecastTime,
    s.typeOfFirstFixedSurface, s.scaleFactorFirstSurface, s.scaledValueFirstSurface,
    255, 0, 0]

/-- `build_pdt_4_44`, 21 entries. -/
def buildPdt4_44 (s : Grib2Settings) : List Int64 :=
  [s.parameterCategory, s.parameterNumber, s.aerosolType,
    -- 3–7: size distribution
    0, 0, s.sizeDistParamFirst, 0, s.sizeDistParamSecond,
    2, 0, 0, 0, 0,
    s.indicatorOfUnitOfTime, s.forecastTime,
    s.typeOfFirstFixedSurface, s.scaleFactorFirstSurface, s.scaledValueFirstSurface,
    255, 0, 0]

/-- `build_pdt_4_45`, 24 entries. -/
def buildPdt4_45 (s : Grib2Settings) : List Int64 :=
  [s.parameterCategory, s.parameterNumber, s.aerosolType,
    0, 0, s.sizeDistParamFirst, 0, s.sizeDistParamSecond,
    2, 0, 0, 0, 0,
    s.indicatorOfUnitOfTime, s.forecastTime,
    -- 15–17: ensemble
    0, s.ensemblePerturbationNumber, 0,
    s.typeOfFirstFixedSurface, s.scaleFactorFirstSurface, s.scaledValueFirstSurface,
    255, 0, 0]

/-- `build_pdt_4_46`, 35 entries. Its statistical block leaves the type of time increment and the
unit of successive fields at zero, where `build_pdt_4_8` sets both. -/
def buildPdt4_46 (s : Grib2Settings) : List Int64 :=
  [s.parameterCategory, s.parameterNumber, s.aerosolType,
    0, 0, s.sizeDistParamFirst, 0, s.sizeDistParamSecond,
    2, 0, 0, 0, 0,
    s.indicatorOfUnitOfTime, s.forecastTime,
    s.typeOfFirstFixedSurface, s.scaleFactorFirstSurface, s.scaledValueFirstSurface,
    255, 0, 0,
    -- 21–26: end of the overall time interval
    0, 0, 0, 0, 0, 0,
    -- 27–34: statistical processing
    s.numberOfTimeRangeSpecs, s.totalMissingFromStatisticalProcess, s.statisticalProcess, 0,
    s.timeRangeUnit, s.timeRangeLength, 0, 0]

/-- `build_pdt_4_48`, 26 entries. The size distribution is left at zero here. -/
def buildPdt4_48 (s : Grib2Settings) : List Int64 :=
  [s.parameterCategory, s.parameterNumber, s.aerosolType,
    0, 0, 0, 0, 0,
    -- 8–12: optical property and wavelengths
    s.opticalPropertyType, 0, s.wavelengthFirstNm, 0, s.wavelengthLastNm,
    2, 0, 0, 0, 0,
    s.indicatorOfUnitOfTime, s.forecastTime,
    s.typeOfFirstFixedSurface, s.scaleFactorFirstSurface, s.scaledValueFirstSurface,
    255, 0, 0]

/-- `build_pdt_4_49`, 29 entries. -/
def buildPdt4_49 (s : Grib2Settings) : List Int64 :=
  [s.parameterCategory, s.parameterNumber, s.aerosolType,
    0, 0, 0, 0, 0,
    s.opticalPropertyType, 0, s.wavelengthFirstNm, 0, s.wavelengthLastNm,
    2, 0, 0, 0, 0,
    s.indicatorOfUnitOfTime, s.forecastTime,
    -- 20–22: ensemble
    0, s.ensemblePerturbationNumber, 0,
    s.typeOfFirstFixedSurface, s.scaleFactorFirstSurface, s.scaledValueFirstSurface,
    255, 0, 0]

/-- The template dispatch of `GRIB2_Driver::write`. -/
def buildPdt (s : Grib2Settings) : Except String (List Int64) :=
  match Pdt.select s.pdtNumber with
  | some .pdt0 => .ok (buildPdt4_0 s)
  | some .pdt8 => .ok (buildPdt4_8 s)
  | some .pdt40 => .ok (buildPdt4_40 s)
  | some .pdt44 => .ok (buildPdt4_44 s)
  | some .pdt45 => .ok (buildPdt4_45 s)
  | some .pdt46 => .ok (buildPdt4_46 s)
  | some .pdt48 => .ok (buildPdt4_48 s)
  | some .pdt49 => .ok (buildPdt4_49 s)
  | none => .error ("GRIB2_Driver::write: unsupported PDT number " ++ toString s.pdtNumber ++
      ". Zero record bytes emitted.")

/-! ### Decoding: descriptors of a record -/

/-- The entries of `gribfield` that indexing reads. A null template pointer is `none`; the length
fields are the lengths of the lists. -/
structure GribField where
  ipdtnum : Int64
  ipdtmpl : Option (List Int64)
  igdtmpl : Option (List Int64)
  ngrdpts : Int64
  deriving Repr

/-- `pdt_value`: an entry beyond the template reads as `0`. -/
def pdtValue (gfld : GribField) (idx : Nat) : Int64 :=
  match gfld.ipdtmpl with
  | some t => t.getD idx 0
  | none => 0

/-- `pdt_surface_type_index`. -/
def pdtSurfaceTypeIndex (pdtNumber : Int64) : Nat :=
  match Pdt.select pdtNumber with
  | some .pdt0 => 9
  | some .pdt8 => 9
  | some .pdt40 => 10
  | some .pdt44 => 15
  | some .pdt45 => 18
  | some .pdt46 => 15
  | some .pdt48 => 20
  | some .pdt49 => 23
  -- as in the base template
  | none => 9

/-- `pdt_surface_value_index`. -/
def pdtSurfaceValueIndex (pdtNumber : Int64) : Nat := pdtSurfaceTypeIndex pdtNumber + 2

/-- `CompositionMetadata`, all zero by default. -/
structure CompositionMetadata where
  pdtNumber : Int64 := 0
  chemicalConstituentType : Int64 := 0
  aerosolType : Int64 := 0
  opticalPropertyType : Int64 := 0
  wavelengthFirstNm : Int64 := 0
  wavelengthLastNm : Int64 := 0
  ensemblePerturbationNumber : Int64 := 0
  statisticalProcess : Int64 := 0
  deriving DecidableEq, Repr

/-- `extract_composition_metadata`. -/
def extractCompositionMetadata (pdtNumber : Int64) (ipdtmpl : List Int64) : CompositionMetadata :=
  -- an entry beyond the template counts as zero
  let safeGet (idx : Nat) : Int64 := ipdtmpl.getD idx 0
  match Pdt.select pdtNumber with
  | some .pdt40 => { pdtNumber, chemicalConstituentType := safeGet 2 }
  | some .pdt44 => { pdtNumber, aerosolType := safeGet 2 }
  | some .pdt45 => { pdtNumber, aerosolType := safeGet 2, ensemblePerturbationNumber := safeGet 16 }
  | some .pdt46 => { pdtNumber, aerosolType := safeGet 2, statisticalProcess := safeGet 29 }
  | some .pdt48 =>
    { pdtNumber
      aerosolType := safeGet 2
      opticalPropertyType := safeGet 8
      wavelengthFirstNm := safeGet 10
      wavelengthLastNm := safeGet 12 }
  | some .pdt49 =>
    { pdtNumber
      aerosolType := safeGet 2
      opticalPropertyType := safeGet 8
      wavelengthFirstNm := safeGet 10
      wavelengthLastNm := safeGet 12
      ensemblePerturbationNumber := safeGet 21 }
  | some .pdt8 => { pdtNumber, statisticalProcess := safeGet 23 }
  | some .pdt0 | none => { pdtNumber }

/-- `field_identity_name`, the overload without composition suffixes. -/
def fieldIdentityBase
    (discipline parameterCategory parameterNumber surfaceType surfaceValue : Int64) : String :=
  "d" ++ toString discipline ++ "_c" ++ toString parameterCategory ++ "_n" ++
    toString parameterNumber ++ "_s" ++ toString surfaceType ++ "_l" ++ toString surfaceValue

/-- `field_identity_name`, the composition-aware overload. -/
def fieldIdentityName (discipline parameterCategory parameterNumber surfaceType surfaceValue
    pdtNumber chemicalConstituentType aerosolType opticalPropertyType wavelengthFirstNm
    wavelengthLastNm ensemblePerturbationNumber statisticalProcess : Int64) : String :=
  let name :=
    fieldIdentityBase discipline parameterCategory parameterNumber surfaceType surfaceValue
  match Pdt.select pdtNumber with
  | some .pdt40 => name ++ ("_ct" ++ toString chemicalConstituentType)
  | some .pdt44 => name ++ ("_at" ++ toString aerosolType)
  | some .pdt45 =>
    name ++ ("_at" ++ toString aerosolType) ++ ("_ep" ++ toString ensemblePerturbationNumber)
  | some .pdt46 => name ++ ("_at" ++ toString aerosolType) ++ ("_sp" ++ toString statisticalProcess)
  | some .pdt48 =>
    name ++ ("_at" ++ toString aerosolType) ++ ("_op" ++ toString opticalPropertyType) ++
      ("_wl" ++ toString wavelengthFirstNm ++ "_" ++ toString wavelengthLastNm)
  | some .pdt49 =>
    name ++ ("_at" ++ toString aerosolType) ++ ("_op" ++ toString opticalPropertyType) ++
      ("_wl" ++ toString wavelengthFirstNm ++ "_" ++ toString wavelengthLastNm) ++
      ("_ep" ++ toString ensemblePerturbationNumber)
  | some .pdt8 => name ++ ("_sp" ++ toString statisticalProcess)
  | some .pdt0 | none => name

/-- The key `build_record_index` files a record under. -/
def recordKey (discipline : Int64) (gfld : GribField) : String :=
  let category := pdtValue gfld 0
  let number := pdtValue gfld 1
  let pdtNum := gfld.ipdtnum
  let surfType := pdtValue gfld (pdtSurfaceTypeIndex pdtNum)
  let surfValue := pdtValue gfld (pdtSurfaceValueIndex pdtNum)
  let composition := extractCompositionMetadata pdtNum (gfld.ipdtmpl.getD [])
  fieldIdentityName discipline category number surfType surfValue pdtNum
    composition.chemicalConstituentType composition.aerosolType composition.opticalPropertyType
    composition.wavelengthFirstNm composition.wavelengthLastNm
    composition.ensemblePerturbationNumber composition.statisticalProcess

/-! ### The record index -/

/-- `GribRecordLocation`. -/
structure GribRecordLocation where
  offset : Int64 := 0
  length : Int64 := 0
  fieldNumber : Int64 := 1
  deriving DecidableEq, Repr

/-- `GribFieldIndex`. -/
structure GribFieldIndex where
  ni : Int64 := 0
  nj : Int64 := 0
  ngrdpts : Int64 := 0
  records : List GribRecordLocation := []
  deriving Repr

/-- `records_`. -/
abbrev RecordIndex := AList fun _ : String => GribFieldIndex

/-- The calls into `nceplibs-g2c` that writing and indexing make, on messages of type `Msg`: `pack`
is `g2_create` to `g2_gribend` on the discipline and the product section; `info` is `g2_info`, with
its return code, the discipline and the number of fields; `getfld` is a metadata-only `g2_getfld`,
with its return code. -/
structure G2c (Msg : Type) where
  pack : Int64 → Int64 → List Int64 → Msg
  info : Msg → Int64 × Int64 × Nat
  getfld : Msg → Nat → Int64 × Option GribField

/-- A message found by `seekgb`, with its place in the file. -/
structure Located (Msg : Type) where
  lskip : Int64
  lgrib : Int64
  cgrib : Msg

/-- The grid shape of a record: `Ni` and `Nj` of the grid template, or a single row of points when
the template yields no usable shape. -/
def gridShape (gfld : GribField) : Int64 × Int64 :=
  let (ni, nj) := match gfld.igdtmpl with
    | some t => if 8 < t.length then (t.getD 7 0, t.getD 8 0) else (0, 0)
    | none => (0, 0)
  if ni ≤ 0 ∨ nj ≤ 0 ∨ ni * nj ≠ gfld.ngrdpts then (gfld.ngrdpts, 1) else (ni, nj)

/-- Filing one record: the first one of a key fixes the geometry. -/
def fileRecord (records : RecordIndex) (key : String) (gfld : GribField)
    (location : GribRecordLocation) : RecordIndex :=
  let entry := (records.lookup key).getD {}
  let entry := if entry.records.isEmpty then
      { entry with ni := (gridShape gfld).1, nj := (gridShape gfld).2, ngrdpts := gfld.ngrdpts }
    else entry
  records.insert key { entry with records := entry.records ++ [location] }

variable {Msg : Type} (g : G2c Msg) (inputPath : String)

/-- `GRIB2_Driver::write` as far as the product section goes: the message of a field with these
settings. -/
def writeMessage (s : Grib2Settings) : Except String Msg :=
  (buildPdt s).map (g.pack s.discipline s.pdtNumber)

/-- The loop over the fields `n, n + 1, …` of one message, `count` of them left. -/
def indexFields (discipline : Int64) (m : Located Msg) :
    (count n : Nat) → RecordIndex → Except String RecordIndex
  | 0, _, records => .ok records
  | count + 1, n, records =>
    let (ret, found) := g.getfld m.cgrib n
    -- a code of zero with no field is an error as well
    match ret == 0, found with
    | true, some gfld =>
      indexFields discipline m count (n + 1) (fileRecord records (recordKey discipline gfld) gfld
        { offset := m.lskip, length := m.lgrib, fieldNumber := Int64.ofNat n })
    | _, _ => .error ("GRIB2_Driver::open_read: g2_getfld (metadata) failed (code " ++
        toString ret ++ ") while indexing '" ++ inputPath ++ "'.")

/-- `build_record_index` on the messages that `seekgb` finds, in file order. -/
def buildRecordIndex : List (Located Msg) → RecordIndex → Except String RecordIndex
  | [], records => .ok records
  | m :: file, records =>
    let (ret, discipline, numfields) := g.info m.cgrib
    if ret ≠ 0 then
      .error ("GRIB2_Driver::open_read: g2_info failed (code " ++ toString ret ++
        ") while indexing '" ++ inputPath ++ "'.")
    else
      (indexFields g inputPath discipline m numfields 1 records).bind (buildRecordIndex file)

end Amio.Grib2
