import Amio.Drivers.Grib2Write
import Amio.Drivers.OpenState

/-!
# The GRIB2 driver from `open_write` to `read`

The calls of `GRIB2_Driver` with the disk behind it: `open_write` creates the output file, every
`write` appends a message, `close` ends the file, and `open_read` scans a file and indexes it. The
flags of the driver decide what a call does: `open_write` and `open_read` of an open driver do
nothing but for the data representation, and `write` looks at `initialized_` only, so that a
driver that is open for reading takes a field and drops it.

The calls of `nceplibs-g2c` and of the C library are parameters, as in the modules before. A file
that is created is empty at once, and what `fwrite` has taken is in the file: nobody else looks at
it before `close`.
-/

namespace Amio.Grib2

/-! ### Configuration -/

/-- A configuration with `get_or<int>`. -/
structure GribConf extends Conf where
  getIntOr : String → Int32 → Except ConfError Int32

/-- `cfg_int`. The value and the default go through `int`. -/
def cfgInt (m : GribConf) (key : String) (default : Int64) : Except ConfError Int64 :=
  if m.has key then (m.getIntOr key default.toInt32).map Int32.toInt64 else .ok default

/-- `read_settings`. Of `parameter_category` and `category` the latter counts, and likewise of
`parameter_number` and `parameter`. -/
def readSettings (m : GribConf) : Except ConfError MessageSettings := do
  let s : MessageSettings := {}
  let s := { s with discipline := ← cfgInt m "grib2.discipline" s.discipline }
  let s := { s with center := ← cfgInt m "grib2.center" s.center }
  let s := { s with subcenter := ← cfgInt m "grib2.subcenter" s.subcenter }
  let s := { s with
    masterTableVersion := ← cfgInt m "grib2.master_table_version" s.masterTableVersion }
  let s := { s with
    localTableVersion := ← cfgInt m "grib2.local_table_version" s.localTableVersion }
  let s := { s with
    significanceOfRefTime := ← cfgInt m "grib2.significance_of_ref_time" s.significanceOfRefTime }
  let s := { s with productionStatus := ← cfgInt m "grib2.production_status" s.productionStatus }
  let s := { s with typeOfData := ← cfgInt m "grib2.type_of_data" s.typeOfData }
  let s := { s with gdtNumber := ← cfgInt m "grib2.gdt_number" s.gdtNumber }
  let s := { s with latFirst := ← cfgInt m "grib2.lat_first" s.latFirst }
  let s := { s with lonFirst := ← cfgInt m "grib2.lon_first" s.lonFirst }
  let s := { s with latLast := ← cfgInt m "grib2.lat_last" s.latLast }
  let s := { s with lonLast := ← cfgInt m "grib2.lon_last" s.lonLast }
  let s := { s with pdtNumber := ← cfgInt m "grib2.pdt_number" s.pdtNumber }
  let s := { s with
    parameterCategory := ← cfgInt m "grib2.parameter_category" s.parameterCategory }
  let s := { s with parameterCategory := ← cfgInt m "grib2.category" s.parameterCategory }
  let s := { s with parameterNumber := ← cfgInt m "grib2.parameter_number" s.parameterNumber }
  let s := { s with parameterNumber := ← cfgInt m "grib2.parameter" s.parameterNumber }
  let s := { s with
    typeOfFirstFixedSurface :=
      ← cfgInt m "grib2.type_of_first_fixed_surface" s.typeOfFirstFixedSurface }
  let s := { s with
    scaleFactorFirstSurface :=
      ← cfgInt m "grib2.scale_factor_first_surface" s.scaleFactorFirstSurface }
  let s := { s with
    scaledValueFirstSurface :=
      ← cfgInt m "grib2.scaled_value_first_surface" s.scaledValueFirstSurface }
  let s := { s with forecastTime := ← cfgInt m "grib2.forecast_time" s.forecastTime }
  let s := { s with
    indicatorOfUnitOfTime :=
      ← cfgInt m "grib2.indicator_of_unit_of_time" s.indicatorOfUnitOfTime }
  let s := { s with
    decimalScaleFactor := ← cfgInt m "grib2.decimal_scale_factor" s.decimalScaleFactor }
  -- the composition-specific entries
  let s := { s with chemicalConstituentType := ← cfgInt m "grib2.chemical_constituent_type" 0 }
  let s := { s with aerosolType := ← cfgInt m "grib2.aerosol_type" 0 }
  let s := { s with sizeDistParamFirst := ← cfgInt m "grib2.size_dist_param_first" 0 }
  let s := { s with sizeDistParamSecond := ← cfgInt m "grib2.size_dist_param_second" 0 }
  let s := { s with opticalPropertyType := ← cfgInt m "grib2.optical_property_type" 0 }
  let s := { s with wavelengthFirstNm := ← cfgInt m "grib2.wavelength_first_nm" 0 }
  let s := { s with wavelengthLastNm := ← cfgInt m "grib2.wavelength_last_nm" 0 }
  let s := { s with
    ensemblePerturbationNumber := ← cfgInt m "grib2.ensemble_perturbation_number" 0 }
  let s := { s with statisticalProcess := ← cfgInt m "grib2.statistical_process" 0 }
  let s := { s with timeRangeUnit := ← cfgInt m "grib2.time_range_unit" 0 }
  let s := { s with timeRangeLength := ← cfgInt m "grib2.time_range_length" 0 }
  let s := { s with numberOfTimeRangeSpecs := ← cfgInt m "grib2.number_of_time_range_specs" 0 }
  let s := { s with
    totalMissingFromStatisticalProcess :=
      ← cfgInt m "grib2.total_missing_from_statistical_process" 0 }
  let s := { s with nParallel := ← cfgInt m "grib2.n_parallel" 0 }
  return s

/-- `parse_drt_name`. -/
def parseDrtName (name : String) : Except DriverThrow Drt :=
  let lower := name.toLower
  if ["adaptive_entropy_coding", "libaec", "adaptive entropy coding via libaec",
      "adaptive entropy coding"].contains lower then .ok .adaptiveEntropyCoding
  else if ["lossless_jpeg2000", "jpeg2000", "lossless jpeg2000"].contains lower then
    .ok .losslessJpeg2000
  else
    .error (.runtime ("GRIB2_Driver: unrecognized Data Representation Template: '" ++ name ++
      "'. DRT name is not recognized. Allowed values: \x7bAdaptive Entropy Coding via libaec, " ++
      "Lossless JPEG2000\x7d. Zero record bytes emitted."))

/-- `validate_drt`. -/
def validateDrt (m : GribConf) : Except DriverThrow Drt := do
  if !m.has "data_representation_template" && !m.has "drt" then
    throw (.runtime ("GRIB2_Driver: Data Representation Template field is missing from " ++
      "configuration. Required field: 'data_representation_template' or 'drt'. The field was " ++
      "missing. Zero record bytes emitted."))
  -- the long key goes before the short one
  let key := if m.has "data_representation_template" then "data_representation_template" else "drt"
  let name ← (m.getString key).mapError .conf
  if name = "" then
    throw (.runtime ("GRIB2_Driver: Data Representation Template field is present but empty. " ++
      "The field value is missing. Required: one of \x7bAdaptive Entropy Coding via libaec, " ++
      "Lossless JPEG2000\x7d. Zero record bytes emitted."))
  parseDrtName name

/-- The first of the keys that is there; `current` when none is. -/
def resolvePath (m : GribConf) (keys : List String) (current : String) :
    Except DriverThrow String :=
  match keys.find? m.has with
  | some key => (m.getString key).mapError .conf
  | none => .ok current

/-! ### The driver and its disk -/

/-- Some more bytes at the end of a file, which has no room for what `fseek` could not reach. -/
def GribFile.append (file : GribFile) (bytes : List UInt8) : GribFile :=
  if h : (file.bytes ++ bytes).length < 2 ^ 63 then ⟨file.bytes ++ bytes, h⟩ else file

/-- An empty file. -/
def GribFile.empty : GribFile := ⟨[], by decide⟩

/-- A driver, and the files by their paths. `outFile` is the path of the file that `out_file_` is
open on. -/
structure Session where
  initialized : Bool := false
  settings : MessageSettings := {}
  outputPath : String := ""
  activeDrt : Drt := .adaptiveEntropyCoding
  outFile : Option String := none
  readMode : Bool := false
  inputPath : String := ""
  records : RecordIndex := ∅
  disk : String → Option GribFile

/-- A call, with what the C library answers: whether the output file can be created, whether the
input file can be opened, and how much `fwrite` takes. `left` is what a scan that throws has
filed. -/
inductive SessionCall
  | openWrite (m : GribConf) (created : Bool)
  | openRead (m : GribConf) (readable : Bool) (left : RecordIndex)
  | write (src : List UInt8) (m : VarMeta) (fwrite : List UInt8 → Nat)
  | flush
  | close

/-- The library: what it makes of the calls that write, and how it finds and describes messages. -/
structure Library where
  encoder : Encoder
  g2c : G2c (List UInt8)
  seekgb : Seekgb

namespace Session

variable (lib : Library) (s : Session)

/-- The driver as `write` uses it. -/
def writer : Writer := ⟨s.initialized, s.settings, s.activeDrt, s.outFile.isSome⟩

/-- `initialize`. -/
def initializeDriver (m : GribConf) (created : Bool) : Outcome DriverThrow Unit × Session :=
  if s.initialized then (.done (), s)
  else
    match readSettings m with
    | .error e => (.threw (.conf e), s)
    | .ok settings =>
      let s := { s with settings := settings }
      match resolvePath m ["path", "output_path"] s.outputPath with
      | .error e => (.threw e, s)
      | .ok path =>
        let s := { s with outputPath := path }
        -- without a path there is no file, and the driver is initialized all the same
        if path = "" then (.done (), { s with initialized := true })
        else if created then
          (.done (), { s with
            initialized := true
            outFile := some path
            disk := Function.update s.disk path (some .empty) })
        else
          (.threw (.runtime ("GRIB2_Driver: failed to open output file '" ++ path ++
            "' for writing.")), { s with outFile := none })

/-- `open_write`. -/
def openWrite (m : GribConf) (created : Bool) : Outcome DriverThrow Unit × Session :=
  match validateDrt m with
  | .error e => (.threw e, s)
  | .ok drt => initializeDriver { s with activeDrt := drt } m created

/-- `open_read`. -/
def openRead (m : GribConf) (readable : Bool) (left : RecordIndex) :
    Outcome DriverThrow Unit × Session :=
  if s.initialized then (.done (), s)
  else
    match readSettings m with
    | .error e => (.threw (.conf e), s)
    | .ok settings =>
      let s := { s with settings := settings }
      match resolvePath m ["path", "input_path", "output_path"] s.inputPath with
      | .error e => (.threw e, s)
      | .ok path =>
        let s := { s with inputPath := path }
        if path = "" then
          (.threw (.runtime "GRIB2_Driver::open_read: 'path' (or 'input_path') field is required."),
            s)
        else
          let file := if readable then s.disk path else none
          -- a round for each byte is enough
          match scanFile lib.g2c lib.seekgb path ((file.map (·.bytes.length)).getD 0 + 1) file with
          | none => (.undefined, s)
          | some (.error e) => (.threw (.runtime e), { s with records := left })
          | some (.ok records) =>
            (.done (), { s with records := records, readMode := true, initialized := true })

/-- `write`: what it emits goes to the output file, if there is one. -/
def write (src : List UInt8) (m : VarMeta) (fwrite : List UInt8 → Nat) :
    Outcome DriverThrow Unit × Session :=
  let (result, bytes) := s.writer.write lib.encoder fwrite src m.dtype m.shape
  -- what has been written to the file is there also if the call then throws
  let s' := match s.outFile with
    | some path =>
      { s with disk := Function.update s.disk path ((s.disk path).map (·.append bytes)) }
    | none => s
  match result with
  | .done () => (.done (), s')
  | .threw e => (.threw (.runtime e), s')
  | .undefined => (.undefined, s')

/-- `close`. The output path stays. -/
def close : Outcome DriverThrow Unit × Session :=
  if s.initialized then
    (.done (), { s with
      outFile := none, records := ∅, readMode := false, inputPath := "", initialized := false })
  else (.done (), s)

/-- One call: how it ends, and the state it leaves. -/
def call : SessionCall → Outcome DriverThrow Unit × Session
  | .openWrite m created => s.openWrite m created
  | .openRead m readable left => s.openRead lib m readable left
  | .write src m fwrite => s.write lib src m fwrite
  | .flush => (.done (), s)
  | .close => s.close

end Session

/-! ### Runs -/

/-- The last output file that was created: the settings it was opened with, and the calls behind
each of its messages. -/
structure Output where
  path : String
  settings : MessageSettings
  sent : List (List G2cCall)

/-- A driver with its last output file. -/
structure SessionRun where
  session : Session
  output : Option Output

namespace SessionRun

variable (lib : Library) (r : SessionRun)

/-- The last output file after a call. -/
def outputAfter (c : SessionCall) : Option Output :=
  match c with
  | .openWrite _ _ =>
    let s' := (r.session.call lib c).2
    -- a file that was not open before has just been created
    if r.session.outFile = none ∧ s'.outFile ≠ none then some ⟨s'.outputPath, s'.settings, []⟩
    else r.output
  | .write src m _ =>
    match r.session.writer.encode lib.encoder src m.dtype m.shape, r.session.outFile with
    | .done calls, some _ => r.output.map fun o => { o with sent := o.sent ++ [calls] }
    | _, _ => r.output
  | _ => r.output

/-- A call; none when it does something undefined. -/
def step (c : SessionCall) : Option SessionRun :=
  match r.session.call lib c with
  | (.undefined, _) => none
  | (_, s') => some ⟨s', r.outputAfter lib c⟩

/-- The disk has room for a message, and `fwrite` takes it whole. -/
def FullWrite (c : SessionCall) : Prop :=
  match c with
  | .write src m fwrite =>
    ∀ calls, r.session.writer.encode lib.encoder src m.dtype m.shape = .done calls →
      (lib.encoder.message calls).length ≤ fwrite (lib.encoder.message calls) ∧
      ∀ path file, r.session.outFile = some path → r.session.disk path = some file →
        (file.bytes ++ lib.encoder.message calls).length < 2 ^ 63
  | _ => True

instance (c : SessionCall) : Decidable (r.FullWrite lib c) :=
  match c with
  | .write src m fwrite =>
    match h : r.session.writer.encode lib.encoder src m.dtype m.shape with
    | .done calls =>
      decidable_of_iff
        ((lib.encoder.message calls).length ≤ fwrite (lib.encoder.message calls) ∧
          ∀ path ∈ r.session.outFile, ∀ file ∈ r.session.disk path,
            (file.bytes ++ lib.encoder.message calls).length < 2 ^ 63)
        (by
          simp only [FullWrite, h, Outcome.done.injEq, forall_eq', Option.mem_def]
          exact and_congr_right fun _ =>
            ⟨fun hroom path file hp hf => hroom path hp file hf,
              fun hroom path hp file hf => hroom path file hp hf⟩)
    | .threw e => .isTrue fun calls hcalls => by simp [h] at hcalls
    | .undefined => .isTrue fun calls hcalls => by simp [h] at hcalls
  | .openWrite _ _ | .openRead _ _ _ | .flush | .close => .isTrue trivial

/-- A new driver on any disk, and any sequence of calls. -/
def system : Lts.System SessionRun SessionCall where
  init r := ∃ disk, r = ⟨{ disk := disk }, none⟩
  step := step lib

end SessionRun

/-! ### What a call does -/

namespace Session

variable {lib : Library} {s : Session}

/-- `open_write` leaves what is open alone, or it has created a file. -/
theorem openWrite_spec (s : Session) (m : GribConf) (created : Bool) :
    ((s.openWrite m created).2.outFile = s.outFile ∧
        (s.openWrite m created).2.disk = s.disk ∧ (s.openWrite m created).2.readMode = s.readMode ∧
        (s.initialized = true → (s.openWrite m created).2.initialized = true ∧
          (s.openWrite m created).2.settings = s.settings)) ∨
      (s.initialized = false ∧ (s.openWrite m created).2.outFile = none ∧
        (s.openWrite m created).2.disk = s.disk ∧
        (s.openWrite m created).2.readMode = s.readMode) ∨
      ∃ path, path ≠ "" ∧ s.initialized = false ∧
        (s.openWrite m created).2.initialized = true ∧
        (s.openWrite m created).2.readMode = s.readMode ∧
        (s.openWrite m created).2.outFile = some path ∧
        (s.openWrite m created).2.outputPath = path ∧
        (s.openWrite m created).2.disk = Function.update s.disk path (some .empty) := by
  unfold openWrite
  split
  · exact .inl ⟨rfl, rfl, rfl, fun h => ⟨h, rfl⟩⟩
  · unfold initializeDriver
    simp only
    split
    -- a driver that is initialized already is left as it is
    · next hinit => exact .inl ⟨rfl, rfl, rfl, fun _ => ⟨hinit, rfl⟩⟩
    · next hinit =>
      have hinit' : s.initialized = false := by simpa using hinit
      split
      · exact .inl ⟨rfl, rfl, rfl, fun h => absurd h hinit⟩
      · split
        · exact .inl ⟨rfl, rfl, rfl, fun h => absurd h hinit⟩
        · next path _ =>
          split
          · exact .inl ⟨rfl, rfl, rfl, fun h => absurd h hinit⟩
          -- the file is created, or `fopen` fails
          · next hpath =>
            split
            · exact .inr (.inr ⟨path, hpath, hinit', rfl, rfl, rfl, rfl, rfl⟩)
            · exact .inr (.inl ⟨hinit', rfl, rfl, rfl⟩)

/-- `open_read` of an open driver does nothing; otherwise it opens no output file. -/
theorem openRead_spec (lib : Library) (s : Session) (m : GribConf) (readable : Bool)
    (left : RecordIndex) :
    (s.openRead lib m readable left).2 = s ∨
      s.initialized = false ∧ (s.openRead lib m readable left).2.outFile = s.outFile ∧
        (s.openRead lib m readable left).2.disk = s.disk ∧
        ((s.openRead lib m readable left).2.readMode = true →
          s.readMode = true ∨ (s.openRead lib m readable left).2.initialized = true) := by
  unfold openRead
  split
  · exact .inl rfl
  · next hinit =>
    refine .inr ⟨by simpa using hinit, ?_⟩
    split
    · exact ⟨rfl, rfl, .inl⟩
    · simp only
      split
      · exact ⟨rfl, rfl, .inl⟩
      · next path _ =>
        -- without a path, with a scan that does not end, with one that throws: not initialized
        by_cases hpath : path = ""
        · rw [if_pos hpath]
          exact ⟨rfl, rfl, .inl⟩
        · rw [if_neg hpath]
          split
          · exact ⟨rfl, rfl, .inl⟩
          · exact ⟨rfl, rfl, .inl⟩
          -- the index is complete
          · exact ⟨rfl, rfl, fun _ => .inr rfl⟩

/-- What a field that is accepted emits, when `fwrite` takes it whole. -/
theorem emits_of_done {src : List UInt8} {m : VarMeta} {fwrite : List UInt8 → Nat}
    {calls : List G2cCall} {path : String} (hout : s.outFile = some path)
    (hencode : s.writer.encode lib.encoder src m.dtype m.shape = .done calls)
    (hfull : (lib.encoder.message calls).length ≤ fwrite (lib.encoder.message calls))
    (hdefined : (s.writer.write lib.encoder fwrite src m.dtype m.shape).1 ≠ .undefined) :
    (s.writer.write lib.encoder fwrite src m.dtype m.shape).2 = lib.encoder.message calls ∧
      (lib.encoder.code calls).toNatClampNeg ≤ (lib.encoder.cgrib calls).length := by
  have hopen : s.writer.outFile = true := by
    rw [writer, hout]
    rfl
  simp only [Writer.write, hencode, Writer.commit, hopen, if_true] at hdefined ⊢
  split at hdefined
  · exact absurd rfl hdefined
  -- the message is in the buffer, and `fwrite` takes it whole
  · next hlen =>
    rw [if_neg hlen, List.take_of_length_le hfull]
    exact ⟨rfl, by omega⟩

/-- Without an output file, `write` changes nothing. -/
theorem write_of_none (hout : s.outFile = none) (src : List UInt8) (m : VarMeta)
    (fwrite : List UInt8 → Nat) : (s.write lib src m fwrite).2 = s := by
  unfold write
  simp only [hout]
  split <;> rfl

/-- What `write` emits goes to the output file. -/
theorem write_of_some {path : String} (hout : s.outFile = some path) (src : List UInt8)
    (m : VarMeta) (fwrite : List UInt8 → Nat) : (s.write lib src m fwrite).2 =
      { s with disk := Function.update s.disk path ((s.disk path).map
          (·.append (s.writer.write lib.encoder fwrite src m.dtype m.shape).2)) } := by
  unfold write
  simp only
  rw [hout]
  split <;> rfl

/-- A `write` is undefined when its encoding is. -/
theorem write_result (lib : Library) (s : Session) (src : List UInt8) (m : VarMeta)
    (fwrite : List UInt8 → Nat) : (s.write lib src m fwrite).1 = .undefined ↔
      (s.writer.write lib.encoder fwrite src m.dtype m.shape).1 = .undefined := by
  unfold write
  simp only
  split
  · next h => simp [h]
  · next h => simp [h]
  · next h => simp [h]

end Session

/-! ### What a message is made of -/

/-- The arguments of the four calls that make a message. -/
structure Sections where
  listsec0 : List Int64
  listsec1 : List Int64
  igds : List Int64
  igdstmpl : List Int64
  ipdsnum : Int64
  ipdstmpl : List Int64
  idrsnum : Int64
  idrstmpl : List Int64
  fld : List UInt8
  ngrdpts : Int64
  ibmap : Int64

def Sections.calls (x : Sections) : List G2cCall :=
  [.create x.listsec0 x.listsec1, .addgrid x.igds x.igdstmpl,
    .addfield x.ipdsnum x.ipdstmpl x.idrsnum x.idrstmpl x.fld x.ngrdpts x.ibmap, .gribend]

/-- The library has made a message of the calls. -/
def Encoder.Completes (g : Encoder) (x : Sections) : Prop :=
  0 < g.code x.calls ∧ (g.code x.calls).toNatClampNeg ≤ (g.cgrib x.calls).length

/-- A message of a field with the settings `s`, on a grid of `nj` rows of `ni` points. -/
structure Sections.Describes (x : Sections) (s : MessageSettings) (ni nj : Int) : Prop where
  section0 : x.listsec0 = [s.discipline, 2]
  section3 : x.igds = Grib2.igds s (ni * nj) ∧
    ∃ di entry17, x.igdstmpl = gdtEntries s ni nj di entry17
  section4 : x.ipdsnum = s.pdtNumber ∧ buildPdt s.toGrib2Settings = .ok x.ipdstmpl
  ni_pos : 0 < ni
  nj_pos : 0 < nj
  points : IsInt64 (ni * nj)

/-- The calls behind a message of the output file. -/
def Sent (g : Encoder) (s : MessageSettings) (calls : List G2cCall) : Prop :=
  ∃ x ni nj, calls = Sections.calls x ∧ g.Completes x ∧ x.Describes s ni nj

/-- A call that succeeds has returned a length. -/
theorem Encoder.call_eq_done_pos {g : Encoder} {c : G2cCall} {failed : String}
    {calls calls' : List G2cCall} (h : g.call calls c failed = .done calls') :
    0 < g.code (calls ++ [c]) := by
  rw [Encoder.call, Outcome.bind_eq_done] at h
  obtain ⟨u, hcode, -⟩ := h
  exact Int64.not_le.mp (Outcome.throwIf_eq_done.mp hcode)

/-- The grid of a field has points. -/
theorem gridSize_pos {shape : Shape} {ni nj : Int} (hempty : totalElements shape ≠ 0)
    (hroom : totalElements shape < 2 ^ 61)
    (hsize : gridSize shape (totalElements shape) = .done (ni, nj)) : 0 < ni ∧ 0 < nj := by
  obtain ⟨-, hle, hextents⟩ := valid_of_totalElements hempty
  -- an extent that is read is one of the shape, and those are positive
  have hread : ∀ i e, extentAt shape i = .done e → i < shape.rank → 0 < e := by
    intro i e he hi
    unfold extentAt at he
    split at he
    · next h =>
      obtain rfl := Outcome.done.inj he
      refine hextents _ (mem_dims.mpr ?_)
      show ((i.toNat : Nat) : Int) < shape.rank
      omega
    · cases he
  unfold gridSize at hsize
  split at hsize
  -- the last two axes, or the whole field as one row
  · next hrank =>
    simp only [Outcome.bind_eq_done, Outcome.pure_eq, Outcome.done.injEq, Prod.mk.injEq] at hsize
    obtain ⟨j, hj, i, hi, rfl, rfl⟩ := hsize
    exact ⟨hread _ _ hi (by omega), hread _ _ hj (by omega)⟩
  · simp only [Outcome.done.injEq, Prod.mk.injEq] at hsize
    obtain ⟨rfl, rfl⟩ := hsize
    rw [i64_of_isInt64 ⟨by omega, by omega⟩]
    exact ⟨by omega, by decide⟩

/-- A field that is accepted has been made a message of. -/
theorem sent_of_encode {w : Writer} {g : Encoder} {src : List UInt8} {dtype : Option Dtype}
    {shape : Shape} {calls : List G2cCall} (h : w.encode g src dtype shape = .done calls)
    (hlen : (g.code calls).toNatClampNeg ≤ (g.cgrib calls).length) : Sent g w.settings calls := by
  simp only [Writer.encode, Outcome.bind_eq_done, Outcome.throwIf_eq_done, checked_eq_done,
    allocate] at h
  obtain ⟨-, -, -, -, -, hempty, payload, -, ⟨ni, nj⟩, hsize, -, -, created, hcreate, gdt, hgdt,
    points, ⟨hint, rfl⟩, gridded, hgrid, pdt, hpdt, -, hroom, fld, -, filled, hfield, hend⟩ := h
  obtain rfl := Encoder.call_eq_done hcreate
  obtain rfl := Encoder.call_eq_done hgrid
  obtain rfl := Encoder.call_eq_done hfield
  obtain rfl := Encoder.call_eq_done hend
  have hpos := Encoder.call_eq_done_pos hend
  obtain ⟨di, entry17, rfl⟩ := buildGdt_eq_done hgdt
  obtain ⟨hni, hnj⟩ := gridSize_pos (fun hzero => hempty (.inl hzero)) (by omega) hsize
  exact ⟨⟨_, _, _, _, _, _, _, _, fld, _, _⟩, ni, nj, rfl, ⟨hpos, hlen⟩,
    ⟨rfl, ⟨rfl, di, entry17, rfl⟩, ⟨rfl, Outcome.ofExcept_eq_done.mp hpdt⟩, hni, hnj, hint⟩⟩

/-! ### The invariant -/

theorem GribFile.append_nil (file : GribFile) : file.append [] = file := by
  unfold append
  split
  · cases file
    simp
  · rfl

/-- A message that has room is appended. -/
theorem GribFile.append_bytes {file : GribFile} {bytes : List UInt8}
    (h : (file.bytes ++ bytes).length < 2 ^ 63) :
    (file.append bytes).bytes = file.bytes ++ bytes := by
  rw [append, dif_pos h]

/-- The messages of an output file, one behind the other. -/
def Output.content (g : Encoder) (o : Output) : List UInt8 := (o.sent.map g.message).flatten

namespace SessionRun

/-- What holds in every run. -/
structure Kept (lib : Library) (r : SessionRun) : Prop where
  reading : r.session.readMode = true → r.session.initialized = true ∧ r.session.outFile = none
  writing : ∀ path, r.session.outFile = some path →
    r.session.initialized = true ∧ r.session.readMode = false ∧
      ∃ o, r.output = some o ∧ o.path = path ∧ o.settings = r.session.settings
  named : ∀ o, r.output = some o → o.path ≠ ""
  file : ∀ o, r.output = some o → ∃ f, r.session.disk o.path = some f ∧
    f.bytes = o.content lib.encoder
  sent : ∀ o, r.output = some o → ∀ calls ∈ o.sent, Sent lib.encoder o.settings calls

variable {lib : Library} {r r' : SessionRun}

/-- A call that leaves the disk and the output file alone. -/
theorem Kept.quiet (h : Kept lib r) {s' : Session} (hout : s'.outFile = r.session.outFile)
    (hdisk : s'.disk = r.session.disk)
    (hread : s'.readMode = true → s'.initialized = true ∧ s'.outFile = none)
    (hopen : ∀ path, r.session.outFile = some path → s'.initialized = true ∧
      s'.readMode = false ∧ s'.settings = r.session.settings) : Kept lib ⟨s', r.output⟩ where
  reading := hread
  writing := fun path hpath => by
    rw [hout] at hpath
    obtain ⟨hinit, hmode, hsettings⟩ := hopen path hpath
    obtain ⟨-, -, o, ho, hop, hos⟩ := h.writing path hpath
    exact ⟨hinit, hmode, o, ho, hop, hos.trans hsettings.symm⟩
  named := h.named
  file := fun o ho => by
    simp only [hdisk]
    exact h.file o ho
  sent := h.sent

/-- `open_write` keeps the files and what was sent in agreement. -/
theorem Kept.openWrite (h : Kept lib r) (m : GribConf) (created : Bool) :
    Kept lib ⟨(r.session.openWrite m created).2, r.outputAfter lib (.openWrite m created)⟩ := by
  have hreading : r.session.initialized = false → r.session.readMode = false := fun hinit => by
    by_contra hmode
    rw [(h.reading (by simpa using hmode)).1] at hinit
    cases hinit
  have hclosed : r.session.initialized = false → r.session.outFile = none := fun hinit => by
    by_contra hout
    obtain ⟨path, hpath⟩ := Option.ne_none_iff_exists'.mp hout
    rw [(h.writing path hpath).1] at hinit
    cases hinit
  have hafter : r.outputAfter lib (.openWrite m created) =
      if r.session.outFile = none ∧ (r.session.openWrite m created).2.outFile ≠ none then
        some ⟨(r.session.openWrite m created).2.outputPath,
          (r.session.openWrite m created).2.settings, []⟩
      else r.output := rfl
  obtain ⟨hout, hdisk, hmode, hopen⟩ | ⟨hinit, hout, hdisk, hmode⟩ |
    ⟨path, hne, hinit, hinit', hmode, hout, hpath, hdisk⟩ :=
      Session.openWrite_spec r.session m created
  -- refused before the file: nothing is opened
  · rw [hafter, hout, if_neg (fun hne => hne.2 hne.1)]
    refine h.quiet hout hdisk (fun hr => ?_) fun path hpath => ?_
    · rw [hmode] at hr
      obtain ⟨hi, hn⟩ := h.reading hr
      exact ⟨(hopen hi).1, hout.trans hn⟩
    · obtain ⟨hi, hr, -⟩ := h.writing path hpath
      exact ⟨(hopen hi).1, hmode.trans hr, (hopen hi).2⟩
  -- the file could not be created
  · rw [hafter, hout, if_neg (fun hne => hne.2 rfl)]
    refine h.quiet (hout.trans (hclosed hinit).symm) hdisk (fun hr => ?_) fun path hpath => ?_
    · rw [hmode, hreading hinit] at hr
      cases hr
    · rw [hclosed hinit] at hpath
      cases hpath
  -- a new output file, empty
  · rw [hafter, if_pos ⟨hclosed hinit, by rw [hout]; simp⟩]
    refine ⟨fun hr => ?_, fun p hp => ?_, fun o ho => ?_, fun o ho => ?_,
      fun o ho calls hcalls => ?_⟩
    · rw [hmode, hreading hinit] at hr
      cases hr
    · rw [hout] at hp
      obtain rfl := Option.some.inj hp
      exact ⟨hinit', hmode.trans (hreading hinit), _, rfl, hpath, rfl⟩
    · obtain rfl := Option.some.inj ho
      exact hpath ▸ hne
    · obtain rfl := Option.some.inj ho
      refine ⟨.empty, ?_, rfl⟩
      simp only [hdisk, hpath, Function.update_self]
    · obtain rfl := Option.some.inj ho
      cases hcalls

/-- A field that is accepted becomes the last message of the output file. -/
theorem Kept.sends (h : Kept lib r) {src : List UInt8} {m : VarMeta} {fwrite : List UInt8 → Nat}
    {path : String} {calls : List G2cCall} (hout : r.session.outFile = some path)
    (hencode : r.session.writer.encode lib.encoder src m.dtype m.shape = .done calls)
    (hfull : r.FullWrite lib (.write src m fwrite))
    (hdefined : (r.session.write lib src m fwrite).1 ≠ .undefined) :
    Kept lib ⟨(r.session.write lib src m fwrite).2, r.outputAfter lib (.write src m fwrite)⟩ := by
  obtain ⟨hinit, hmode, o, ho, rfl, hsettings⟩ := h.writing path hout
  obtain ⟨f, hf, hbytes⟩ := h.file o ho
  obtain ⟨htaken, hroom⟩ := hfull calls hencode
  obtain ⟨hemits, hlen⟩ := Session.emits_of_done hout hencode htaken
    (mt (Session.write_result lib r.session src m fwrite).mpr hdefined)
  have hsent := sent_of_encode hencode hlen
  have hafter : r.outputAfter lib (.write src m fwrite) =
      some { o with sent := o.sent ++ [calls] } := by
    simp only [outputAfter, hencode, hout, ho, Option.map_some]
  rw [Session.write_of_some hout, hemits, hf, hafter]
  refine ⟨fun hr => ?_, fun p hp => ?_, fun o' ho' => ?_, fun o' ho' => ?_,
    fun o' ho' calls' hcalls' => ?_⟩
  · rw [show r.session.readMode = true from hr] at hmode
    cases hmode
  · obtain rfl : o.path = p := Option.some.inj (hout.symm.trans hp)
    exact ⟨hinit, hmode, _, rfl, rfl, hsettings⟩
  · obtain rfl := Option.some.inj ho'
    exact h.named o ho
  -- a whole message is behind what the file had
  · obtain rfl := Option.some.inj ho'
    refine ⟨_, Function.update_self .., ?_⟩
    rw [GribFile.append_bytes (hroom _ f hout hf), hbytes]
    simp [Output.content]
  · obtain rfl := Option.some.inj ho'
    rcases List.mem_append.mp hcalls' with hcalls' | hcalls'
    · exact h.sent o ho calls' hcalls'
    · rw [List.mem_singleton.mp hcalls', hsettings]
      exact hsent

theorem Kept.write (h : Kept lib r) {src : List UInt8} {m : VarMeta} {fwrite : List UInt8 → Nat}
    (hfull : r.FullWrite lib (.write src m fwrite))
    (hdefined : (r.session.write lib src m fwrite).1 ≠ .undefined) :
    Kept lib ⟨(r.session.write lib src m fwrite).2, r.outputAfter lib (.write src m fwrite)⟩ := by
  obtain hout | ⟨path, hout⟩ := Option.eq_none_or_eq_some r.session.outFile
  -- no output file: `write` refuses
  · have hafter : r.outputAfter lib (.write src m fwrite) = r.output := by
      simp only [outputAfter, hout]
      split <;> simp_all
    rw [Session.write_of_none hout, hafter]
    exact h
  · by_cases haccept : ∃ calls,
        r.session.writer.encode lib.encoder src m.dtype m.shape = .done calls
    · obtain ⟨calls, hencode⟩ := haccept
      exact h.sends hout hencode hfull hdefined
    · -- nothing is emitted
      have hreject : ∀ calls,
          r.session.writer.encode lib.encoder src m.dtype m.shape ≠ .done calls :=
        fun calls hencode => haccept ⟨calls, hencode⟩
      have hempty := (write_rejected r.session.writer lib.encoder fwrite hreject).2
      have hafter : r.outputAfter lib (.write src m fwrite) = r.output := by
        simp only [outputAfter]
        split
        · next calls _ hencode _ => exact absurd hencode (hreject calls)
        · rfl
      have hdisk : Function.update r.session.disk path ((r.session.disk path).map
          (·.append [])) = r.session.disk := by
        have hsame : (r.session.disk path).map (·.append []) = r.session.disk path := by
          cases r.session.disk path with
          | none => rfl
          | some f => rw [Option.map_some, GribFile.append_nil]
        rw [hsame, Function.update_eq_self]
      rw [Session.write_of_some hout, hempty, hafter, hdisk]
      exact h

/-- The steps of a session. -/
theorem step_cases {c : SessionCall} (h : r.step lib c = some r') :
    (r.session.call lib c).1 ≠ .undefined ∧
      r' = ⟨(r.session.call lib c).2, r.outputAfter lib c⟩ := by
  unfold SessionRun.step at h
  generalize r.session.call lib c = p at h ⊢
  obtain ⟨result, s'⟩ := p
  cases result with
  | undefined => cases h
  | done | threw =>
    obtain rfl := Option.some.inj h
    exact ⟨nofun, rfl⟩

/-- **Every step keeps them in agreement.** -/
theorem Kept.step (h : Kept lib r) {c : SessionCall} (hfull : r.FullWrite lib c)
    (hstep : r.step lib c = some r') : Kept lib r' := by
  obtain ⟨hdefined, rfl⟩ := step_cases hstep
  cases c with
  | openWrite m created => exact h.openWrite m created
  | write src m fwrite => exact h.write hfull hdefined
  | flush => exact h
  -- refused, or the driver reads from now on
  | openRead m readable left =>
    rcases Session.openRead_spec lib r.session m readable left with
      heq | ⟨hinit, hout, hdisk, hmode⟩
    · simp only [Session.call, heq]
      exact h
    · refine h.quiet hout hdisk (fun hr => ?_) fun path hpath => ?_
      · have hnone : r.session.outFile = none := by
          by_contra hsome
          obtain ⟨path, hpath⟩ := Option.ne_none_iff_exists'.mp hsome
          rw [(h.writing path hpath).1] at hinit
          cases hinit
        rcases hmode hr with hr | hinit'
        · rw [(h.reading hr).1] at hinit
          cases hinit
        · exact ⟨hinit', hout.trans hnone⟩
      · rw [(h.writing path hpath).1] at hinit
        cases hinit
  | close =>
    simp only [Session.call, Session.close]
    split
    · exact ⟨nofun, nofun, h.named, h.file, h.sent⟩
    · exact h

/-- **The output file holds what was sent.** In every run in which `fwrite` takes whole messages,
the file that was created last holds the messages of the accepted fields, one behind the other. -/
theorem Kept.of_reach (h : (system lib).Reach (fun r c => r.FullWrite lib c) r) : Kept lib r := by
  refine h.invariant (I := Kept lib) ?_ fun r c r' hr hfull hstep => hr.step hfull hstep
  rintro _ ⟨disk, rfl⟩
  exact ⟨nofun, nofun, nofun, nofun, nofun⟩

end SessionRun

end Amio.Grib2
