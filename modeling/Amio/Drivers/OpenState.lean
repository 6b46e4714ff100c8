import Amio.Config.Codecs
import Amio.Drivers.Attributes
import Amio.Lib.System

/-!
# What is open

`open_write`, `open_read` and `close` of the NetCDF driver and of the NCZarr fallback of the Zarr
driver, with the calls between them, as far as they concern which file is open. netCDF keeps the
files it has opened under ids until they are closed; the driver keeps one id and the flag
`is_open_`. Every call of the library may fail, and a failure becomes an exception. What fails does
nothing: a file that could not be opened has no id, and one that could not be closed stays open.

The two drivers differ in how they read their configuration, in the parallel variants of the calls,
which NCZarr lacks, and in what `flush` does on a closed driver.

The result is `open_state_matches`: `is_open_` tells whether a file is open, and `ncid_` which, in
every run in which no `open_write` fails between the creation of the file and its end; and after a
step that fails there it does not.
-/

namespace Amio

inductive NcDriver
  | netcdf
  | nczarr
  deriving DecidableEq

/-- What a call throws: an exception of CONF, or one of its own with its text. -/
inductive DriverThrow
  | conf (e : ConfError)
  | runtime (what : String)
  deriving DecidableEq

/-- What is given to the library to create or open a file. `parallel` says that the communicator has
more than one rank. -/
structure OpenSettings where
  path : String
  attributes : DatasetAttributes := {}
  parallel : Bool := false

/-! ### The configuration of the NetCDF driver -/

namespace NetCdf

/-- `resolve_dataset_path`. -/
def resolveDatasetPath (m : Conf) : Except ConfError String :=
  if m.has "path" then m.getString "path"
  else if m.has "output_path" then m.getString "output_path"
  else .ok ""

/-- `NetCDF4DataModel`. -/
inductive DataModel
  | classic
  | enhanced

/-- `parse_data_model`. -/
def parseDataModel (model : String) : Except DriverThrow DataModel :=
  if ["", "classic", "netcdf4_classic", "NC4_CLASSIC"].contains model then .ok .classic
  else if ["enhanced", "netcdf4_enhanced", "NC4"].contains model then .ok .enhanced
  else .error (.runtime ("NetCDF_Driver: invalid data model '" ++ model ++ "'. " ++
    "Supported values: 'classic' (default), 'enhanced' (R7.2, R7.3)"))

/-- The path and the data model, which both calls read first. -/
def readPath (m : Conf) (call : String) : Except DriverThrow String := do
  let path ← (resolveDatasetPath m).mapError .conf
  if path = "" then
    throw (.runtime ("NetCDF_Driver::" ++ call ++ ": 'path' (or 'output_path') field is required"))
  let model ← (m.getStringOr "data_model" "classic").mapError .conf
  let _ ← parseDataModel model
  pure path

def CodecThrow.toDriver : CodecThrow → DriverThrow
  | .conf e => .conf e
  | .refused what => .runtime what

/-- `open_write` up to the first call of the library. -/
def writeSettings (m : AttrConf) (parallel : Bool) : Except DriverThrow OpenSettings := do
  let path ← readPath m.toConf "open_write"
  (openCodec m.toConf).mapError CodecThrow.toDriver
  let attributes ← (parseDatasetAttributes m).mapError .conf
  pure { path := path, attributes := attributes, parallel := parallel }

/-- `open_read` up to the first call of the library. -/
def readSettings (m : AttrConf) (parallel : Bool) : Except DriverThrow OpenSettings := do
  let path ← readPath m.toConf "open_read"
  pure { path := path, parallel := parallel }

end NetCdf

/-! ### The configuration of the NCZarr fallback -/

namespace NcZarr

/-- The fields of `ZarrConfig` that the calls below read. -/
structure ZarrConfig where
  uri : String
  codec : String

/-- The required fields, in the order in which they are looked for. -/
def zarrFields : List String := ["uri", "chunk_shape", "shard_shape", "array_shape", "codec"]

/-- An optional read: of a field that is there. -/
def ifThere {α : Type} (m : Conf) (key : String) (get : String → Except ConfError α) (default : α) :
    Except DriverThrow α :=
  if m.has key then (get key).mapError .conf else .ok default

/-- `parse_zarr_config`. What is missing is reported after all that is there has been read. -/
def parseZarrConfig (m : Conf) : Except DriverThrow ZarrConfig := do
  let uri ← ifThere m "uri" m.getString ""
  let _ ← ifThere m "chunk_shape" m.getIntList []
  let _ ← ifThere m "shard_shape" m.getIntList []
  let _ ← ifThere m "array_shape" m.getIntList []
  let codec ← ifThere m "codec" m.getString ""
  let _ ← ifThere m "dtype" m.getString ""
  -- all missing keys are named at once, after those that are there were read
  let missing := zarrFields.filter fun key => !m.has key
  if missing ≠ [] then
    throw (.runtime ("Zarr_Driver: missing required configuration fields: " ++
      ", ".intercalate missing))
  pure ⟨uri, codec⟩

/-- `validate_codec`. -/
def validateCodec (c : ZarrConfig) : Except DriverThrow Unit :=
  if c.codec ≠ "blosc" ∧ c.codec ≠ "zstandard" then
    .error (.runtime ("Zarr_Driver: codec must be one of \x7bblosc, zstandard\x7d (got '" ++
      c.codec ++ "')"))
  else .ok ()

/-- `is_cloud_uri`. -/
def isCloudUri (uri : String) : Bool :=
  ["s3://", "gs://", "https://"].any fun scheme => scheme.toList.isPrefixOf uri.toList

/-- `to_nczarr_uri`, of what is not a cloud URI. -/
def toNczarrUri (path : String) : Except DriverThrow String :=
  if path = "" then .error (.runtime "Zarr_Driver [NCZarr]: empty path is not valid")
  else if "file://".toList.isPrefixOf path.toList then
    .ok (if "#mode=".toList <:+: path.toList then path else path ++ "#mode=nczarr,file")
  else
    .ok ("file://" ++ (if path.toList.head? = some '/' then "" else "./") ++ path ++
      "#mode=nczarr,file")

/-- The URI that is given to the library. The cloud has no place here. -/
def settingsUri (c : ZarrConfig) : Except DriverThrow String :=
  if isCloudUri c.uri then
    .error (.runtime ("Zarr_Driver [NCZarr fallback]: cloud URIs (s3://, gs://, " ++
      "https://) are not supported in NCZarr mode. URI '" ++ c.uri ++
      "' requires TensorStore. Rebuild with AMIO_HAS_TENSORSTORE=ON."))
  else toNczarrUri c.uri

/-- `open_write` up to the first call of the library. -/
def writeSettings (m : AttrConf) : Except DriverThrow OpenSettings := do
  let c ← parseZarrConfig m.toConf
  validateCodec c
  let attributes ← (parseDatasetAttributes m).mapError .conf
  let uri ← settingsUri c
  pure { path := uri, attributes := attributes }

/-- `open_read` up to the first call of the library. -/
def readSettings (m : AttrConf) : Except DriverThrow OpenSettings := do
  let c ← parseZarrConfig m.toConf
  validateCodec c
  let uri ← settingsUri c
  pure { path := uri }

end NcZarr

/-! ### The calls -/

/-- A driver with the files that the library has open for it. -/
structure OpenState where
  ncid : Int := -1
  isOpen : Bool := false
  isWriteMode : Bool := false
  useParallel : Bool := false
  filePath : String := ""
  opened : List Int := []

/-- The library has opened a file, whose id is stored. -/
def OpenState.adopt (s : OpenState) (id : Int) : OpenState :=
  { s with ncid := id, opened := id :: s.opened }

/-- A call with the answers of the library: the id or the error code of what creates or opens a
file, and the status of everything else, zero for success. `put k` is the status of the `k`-th
attribute that is written, and `rest` how a call that has found the driver open ends. -/
inductive OpenCall
  | openWrite (m : AttrConf) (parallel : Bool) (created : Except Int Int) (put : Nat → Int)
  | openRead (m : AttrConf) (parallel : Bool) (openedPar opened : Except Int Int)
  | write (rest : Except DriverThrow Unit)
  | read (rest : Except DriverThrow Unit)
  | flush (status : Int)
  | close (status : Int)

namespace NcDriver

variable (d : NcDriver) (strerror : Int → String)

def writeSettings (m : AttrConf) (parallel : Bool) : Except DriverThrow OpenSettings :=
  match d with
  | netcdf => NetCdf.writeSettings m parallel
  | nczarr => NcZarr.writeSettings m

def readSettings (m : AttrConf) (parallel : Bool) : Except DriverThrow OpenSettings :=
  match d with
  | netcdf => NetCdf.readSettings m parallel
  | nczarr => NcZarr.readSettings m

/-- What an `open_write` or `open_read` of an open driver throws. -/
def alreadyOpen (call : String) : DriverThrow :=
  match d with
  | netcdf => .runtime ("NetCDF_Driver::" ++ call ++ ": driver is already open")
  | nczarr => .runtime "Zarr_Driver: already open"

/-- What a `write` or `read` of a driver that is not open for it throws. -/
def notOpen (call mode : String) : DriverThrow :=
  match d with
  | netcdf => .runtime ("NetCDF_Driver::" ++ call ++ ": driver not open for " ++ mode)
  | nczarr => .runtime ("Zarr_Driver: " ++ call ++ " called on driver not open for " ++ mode)

/-- The exception of `nc_check` and of `nczarr_check`. -/
def failed (status : Int) (context : String) : DriverThrow :=
  let label := match d with
    | netcdf => "NetCDF error in "
    | nczarr => "Zarr_Driver [NCZarr]: error in "
  .runtime (label ++ context ++ ": " ++ strerror status ++ " (nc_errno=" ++ toString status ++ ")")

/-- `nc_check` and `nczarr_check`. -/
def check (status : Int) (context : String) : Except DriverThrow Unit :=
  if status = 0 then .ok () else .error (d.failed strerror status context)

/-- The name of the call for an attribute, with its argument. -/
def putContext (name : String) : PutAtt → String
  | .text _ => "nc_put_att_text('" ++ name ++ "')"
  | .float _ => "nc_put_att_float('" ++ name ++ "')"
  | .double _ => "nc_put_att_double('" ++ name ++ "')"
  | .int _ => "nc_put_att_int('" ++ name ++ "')"
  | .longlong _ => "nc_put_att_longlong('" ++ name ++ "')"

/-- The calls that write the attributes of the file, in their order. -/
def attributeCalls (attributes : DatasetAttributes) : List String :=
  "nc_put_att_text(Conventions)" ::
    (ncWriteAttributes true none attributes.global).map fun call => putContext call.1 call.2

/-- The calls from the `k`-th on, up to the first that fails. -/
def runCalls (put : Nat → Int) : Nat → List String → Except DriverThrow Unit
  | _, [] => .ok ()
  | k, context :: rest =>
    match d.check strerror (put k) context with
    | .error e => .error e
    | .ok () => runCalls put (k + 1) rest

/-- `open_write`. -/
def openWrite (settings : Except DriverThrow OpenSettings) (created : Except Int Int)
    (put : Nat → Int) (s : OpenState) : Except DriverThrow Unit × OpenState :=
  if s.isOpen then (.error (d.alreadyOpen "open_write"), s)
  else
    match settings with
    | .error e => (.error e, s)
    | .ok x =>
      let s := { s with useParallel := x.parallel, filePath := x.path }
      match created with
      | .error status =>
        let call := if x.parallel then "nc_create_par" else "nc_create"
        (.error (d.failed strerror status (call ++ "('" ++ x.path ++ "')")), s)
      | .ok id =>
        -- the library has the file open, and the driver does not know it yet
        match d.runCalls strerror put 0 (attributeCalls x.attributes) with
        | .error e => (.error e, s.adopt id)
        | .ok () => (.ok (), { s.adopt id with isOpen := true, isWriteMode := true })

/-- `nc_open` in `open_read`, up to its return. -/
def openSerial (opened : Except Int Int) (s : OpenState) : Except DriverThrow Unit × OpenState :=
  match opened with
  | .error status => (.error (d.failed strerror status ("nc_open('" ++ s.filePath ++ "')")), s)
  | .ok id => (.ok (), { s.adopt id with isOpen := true, isWriteMode := false })

/-- `open_read`. -/
def openRead (settings : Except DriverThrow OpenSettings) (openedPar opened : Except Int Int)
    (s : OpenState) : Except DriverThrow Unit × OpenState :=
  if s.isOpen then (.error (d.alreadyOpen "open_read"), s)
  else
    match settings with
    | .error e => (.error e, s)
    | .ok x =>
      let s := { s with useParallel := x.parallel, filePath := x.path }
      if x.parallel then
        match openedPar with
        | .ok id => (.ok (), { s.adopt id with isOpen := true, isWriteMode := false })
        -- `nc_open_par` failed; retried serially
        | .error _ => d.openSerial strerror opened { s with useParallel := false }
      else d.openSerial strerror opened s

/-- `flush`. -/
def flush (status : Int) (s : OpenState) : Except DriverThrow Unit × OpenState :=
  if s.isOpen then (d.check strerror status "nc_sync", s)
  else
    match d with
    | netcdf => (.error (.runtime "NetCDF_Driver::flush: driver is not open"), s)
    | nczarr => (.ok (), s)

/-- `close`. -/
def close (status : Int) (s : OpenState) : Except DriverThrow Unit × OpenState :=
  if s.isOpen then
    let context := match d with
      | netcdf => "nc_close('" ++ s.filePath ++ "')"
      | nczarr => "nc_close"
    match d.check strerror status context with
    -- a close that fails leaves the driver open
    | .error e => (.error e, s)
    | .ok () =>
      (.ok (), { s with
        ncid := -1, isOpen := false, isWriteMode := false, filePath := ""
        opened := s.opened.filter (· ≠ s.ncid) })
  else (.ok (), s)

/-- One call: how it ends, and the state it leaves. -/
def call (s : OpenState) : OpenCall → Except DriverThrow Unit × OpenState
  | .openWrite m parallel created put =>
    d.openWrite strerror (d.writeSettings m parallel) created put s
  | .openRead m parallel openedPar opened =>
    d.openRead strerror (d.readSettings m parallel) openedPar opened s
  -- `write` and `read` change nothing of the state that is compared
  | .write rest =>
    (if s.isOpen = false ∨ s.isWriteMode = false then .error (d.notOpen "write" "writing")
      else rest, s)
  | .read rest =>
    (if s.isOpen = false ∨ s.isWriteMode = true then .error (d.notOpen "read" "reading")
      else rest, s)
  | .flush status => d.flush strerror status s
  | .close status => d.close strerror status s

/-- The library gives out no id that is in use. -/
def fresh (s : OpenState) : Except Int Int → Bool
  | .ok id => !s.opened.contains id
  | .error _ => true

/-- A call may be answered so. -/
def answers (s : OpenState) : OpenCall → Bool
  | .openWrite _ _ created _ => fresh s created
  | .openRead _ _ openedPar opened => fresh s openedPar && fresh s opened
  | _ => true

/-- A new driver, and any sequence of calls. -/
def system : Lts.System OpenState OpenCall where
  init s := s = {}
  step s c := if answers s c then some (d.call strerror s c).2 else none

/-! ### Which file is open -/

/-- The driver knows what the library has open for it. -/
def Matches (s : OpenState) : Prop := ∀ id, id ∈ s.opened ↔ s.isOpen = true ∧ id = s.ncid

/-- An `open_write` that creates its file, and then fails to write one of the attributes. -/
def unfinished (s : OpenState) : OpenCall → Bool
  | .openWrite m parallel (.ok _) put =>
    !s.isOpen && match d.writeSettings m parallel with
      | .ok x => (List.range (attributeCalls x.attributes).length).any fun k => put k ≠ 0
      | .error _ => false
  | _ => false

variable {d strerror} {s s' : OpenState} {c : OpenCall}

/-! ### What a call can do -/

theorem check_eq_ok {status : Int} {context : String} :
    d.check strerror status context = .ok () ↔ status = 0 := by
  unfold check
  split
  · next h => simp [h]
  · next h => simp [h]

/-- The calls come to their end when each succeeds. -/
theorem runCalls_eq_ok {put : Nat → Int} {calls : List String} {k : Nat} :
    d.runCalls strerror put k calls = .ok () ↔ ∀ j, j < calls.length → put (k + j) = 0 := by
  induction calls generalizing k with
  | nil => simp [runCalls]
  | cons context rest ih =>
    unfold runCalls
    -- the status of the first call, and those of the rest
    have hsplit : (∀ j, j < (context :: rest).length → put (k + j) = 0) ↔
        put k = 0 ∧ ∀ j, j < rest.length → put (k + 1 + j) = 0 := by
      constructor
      · intro h
        refine ⟨h 0 (by simp), fun j hj => ?_⟩
        rw [Nat.add_assoc, Nat.add_comm 1 j]
        exact h (j + 1) (by simpa using hj)
      · rintro ⟨hzero, hrest⟩ j hj
        cases j with
        | zero => exact hzero
        | succ j =>
          rw [Nat.add_comm j 1, ← Nat.add_assoc]
          exact hrest j (by simpa using hj)
    rw [hsplit]
    split
    -- a call that fails ends the sequence
    · next e he =>
      have hne : put k ≠ 0 := by
        intro hzero
        rw [check_eq_ok.mpr hzero] at he
        cases he
      simp [hne]
    · next he => rw [ih, check_eq_ok.mp he, and_iff_right rfl]

/-- The effect of a call on what is open, with how it ends. A file is left behind by an `open_write`
that does not come to its end after the creation. -/
inductive Effect (s s' : OpenState) : Bool → Except DriverThrow Unit → Prop
  | same {res : Except DriverThrow Unit} (opened : s'.opened = s.opened)
      (isOpen : s'.isOpen = s.isOpen) (ncid : s'.ncid = s.ncid) : Effect s s' false res
  | opens (id : Int) (before : s.isOpen = false) (opened : s'.opened = id :: s.opened)
      (isOpen : s'.isOpen = true) (ncid : s'.ncid = id) : Effect s s' false (.ok ())
  | leaves (id : Int) (e : DriverThrow) (before : s.isOpen = false)
      (opened : s'.opened = id :: s.opened) (isOpen : s'.isOpen = false) :
      Effect s s' true (.error e)
  | closes (before : s.isOpen = true) (opened : s'.opened = s.opened.filter (· ≠ s.ncid))
      (isOpen : s'.isOpen = false) : Effect s s' false (.ok ())

/-- An `open_write` whose settings have been read and whose file has been created. -/
theorem created_effect {x : OpenSettings} {id : Int} {put : Nat → Int} {m : AttrConf}
    {parallel : Bool} (hopen : s.isOpen = false)
    (hsettings : d.writeSettings m parallel = .ok x) :
    Effect s (d.openWrite strerror (.ok x) (.ok id) put s).2
      (d.unfinished s (.openWrite m parallel (.ok id) put))
      (d.openWrite strerror (.ok x) (.ok id) put s).1 := by
  have hunfinished : d.unfinished s (.openWrite m parallel (.ok id) put) =
      (List.range (attributeCalls x.attributes).length).any fun k => put k ≠ 0 := by
    simp only [unfinished, hopen, hsettings, Bool.not_false, Bool.true_and]
  rw [hunfinished, openWrite, if_neg (by simp [hopen])]
  simp only
  split
  · next e he =>
    -- some attribute is not written
    have hany : ((List.range (attributeCalls x.attributes).length).any fun k => put k ≠ 0) =
        true := by
      by_contra hnone
      have hok : d.runCalls strerror put 0 (attributeCalls x.attributes) = .ok () :=
        runCalls_eq_ok.mpr fun j hj => by
          rw [Nat.zero_add]
          by_contra hput
          exact hnone (by simpa using ⟨j, hj, hput⟩)
      rw [hok] at he
      cases he
    rw [hany]
    exact .leaves id e hopen rfl hopen
  · next he =>
    have hall := runCalls_eq_ok.mp he
    have hany : ((List.range (attributeCalls x.attributes).length).any fun k => put k ≠ 0) =
        false := by
      simpa using hall
    rw [hany]
    exact .opens id hopen rfl rfl rfl

/-- What a serial open does. -/
theorem openSerial_effect {opened : Except Int Int} (hopen : s.isOpen = false) :
    Effect s (d.openSerial strerror opened s).2 false (d.openSerial strerror opened s).1 := by
  unfold openSerial
  split
  · exact .same rfl rfl rfl
  · next id => exact .opens id hopen rfl rfl rfl

/-- The settings that are stored before the file is opened do not count. -/
theorem Effect.congr {s₁ : OpenState} {b : Bool} {res : Except DriverThrow Unit}
    (h : Effect s₁ s' b res) (hopened : s₁.opened = s.opened) (hopen : s₁.isOpen = s.isOpen)
    (hncid : s₁.ncid = s.ncid) : Effect s s' b res := by
  cases h with
  | same opened isOpen ncid =>
    exact .same (opened.trans hopened) (isOpen.trans hopen) (ncid.trans hncid)
  | opens id before opened isOpen ncid =>
    exact .opens id (hopen.symm.trans before) (by rw [opened, hopened]) isOpen ncid
  | leaves id e before opened isOpen =>
    exact .leaves id e (hopen.symm.trans before) (by rw [opened, hopened]) isOpen
  | closes before opened isOpen =>
    exact .closes (hopen.symm.trans before) (by rw [opened, hopened, hncid]) isOpen

theorem openRead_effect {settings : Except DriverThrow OpenSettings}
    {openedPar opened : Except Int Int} :
    Effect s (d.openRead strerror settings openedPar opened s).2 false
      (d.openRead strerror settings openedPar opened s).1 := by
  unfold openRead
  split
  · exact .same rfl rfl rfl
  · next hopen =>
    rw [Bool.not_eq_true] at hopen
    cases settings with
    | error e => exact .same rfl rfl rfl
    | ok x =>
      simp only
      split
      -- a parallel open that fails is followed by a serial one
      · split
        · next id => exact .opens id hopen rfl rfl rfl
        · let s₁ : OpenState := { s with useParallel := false, filePath := x.path }
          have h : Effect s₁ (d.openSerial strerror opened s₁).2 false
              (d.openSerial strerror opened s₁).1 := openSerial_effect hopen
          exact h.congr rfl rfl rfl
      -- or the serial one is the first
      · let s₁ : OpenState := { s with useParallel := x.parallel, filePath := x.path }
        have h : Effect s₁ (d.openSerial strerror opened s₁).2 false
            (d.openSerial strerror opened s₁).1 := openSerial_effect hopen
        exact h.congr rfl rfl rfl

/-- **What a call can do.** The calls are taken apart only here. -/
theorem call_effect (s : OpenState) (c : OpenCall) :
    Effect s (d.call strerror s c).2 (d.unfinished s c) (d.call strerror s c).1 := by
  cases c with
  | openWrite m parallel created put =>
    simp only [call]
    -- a driver that is open refuses
    cases hopen : s.isOpen with
    | true =>
      have hunfinished : d.unfinished s (.openWrite m parallel created put) = false := by
        cases created <;> simp [unfinished, hopen]
      rw [hunfinished]
      unfold openWrite
      rw [if_pos hopen]
      exact .same rfl rfl rfl
    | false =>
      -- then the settings are read, before any file is touched
      cases hsettings : d.writeSettings m parallel with
      | error e =>
        have hunfinished : d.unfinished s (.openWrite m parallel created put) = false := by
          cases created <;> simp [unfinished, hsettings]
        rw [hunfinished]
        unfold openWrite
        rw [if_neg (by simp [hopen])]
        exact .same rfl rfl rfl
      | ok x =>
        -- the only call that may leave a file unfinished
        cases created with
        | error status =>
          unfold openWrite
          rw [if_neg (by simp [hopen])]
          exact .same rfl rfl rfl
        | ok id => exact created_effect hopen hsettings
  | openRead m parallel openedPar opened => exact openRead_effect
  | write rest => exact .same rfl rfl rfl
  | read rest => exact .same rfl rfl rfl
  | flush status =>
    show Effect s (d.flush strerror status s).2 false (d.flush strerror status s).1
    unfold flush
    split
    · exact .same rfl rfl rfl
    · split <;> exact .same rfl rfl rfl
  | close status =>
    show Effect s (d.close strerror status s).2 false (d.close strerror status s).1
    unfold close
    split
    · next hopen =>
      simp only
      split
      · exact .same rfl rfl rfl
      · exact .closes hopen rfl rfl
    · exact .same rfl rfl rfl

/-! ### The correspondence -/

/-- A call that finishes keeps the correspondence. -/
theorem Matches.effect {b : Bool} {res : Except DriverThrow Unit} (h : Matches s)
    (heffect : Effect s s' b res) (hb : b = false) : Matches s' := by
  cases heffect with
  | same opened isOpen ncid =>
    intro id
    rw [opened, isOpen, ncid]
    exact h id
  | opens id before opened isOpen ncid =>
    intro id'
    -- a driver that was closed had no file open
    have hnone : id' ∉ s.opened := by
      rw [h id', before]
      simp
    rw [opened, isOpen, ncid, List.mem_cons]
    simp [hnone]
  -- a call that finishes leaves no file behind
  | leaves => cases hb
  | closes before opened isOpen =>
    intro id
    rw [opened, isOpen, List.mem_filter, h id]
    simp

/-- **What is left behind is not known.** -/
theorem not_matches_of_effect {res : Except DriverThrow Unit} (heffect : Effect s s' true res) :
    ¬ Matches s' := by
  cases heffect with
  | leaves id e before opened isOpen =>
    intro h
    have hmem : id ∈ s'.opened := by
      rw [opened]
      exact List.mem_cons_self
    rw [h id, isOpen] at hmem
    cases hmem.1

/-- The steps of a driver. -/
theorem step_cases (h : (d.system strerror).step s c = some s') :
    s' = (d.call strerror s c).2 := by
  simp only [system, Option.ite_none_right_eq_some, Option.some.injEq] at h
  exact h.2.symm

/-- `s` is reached by a run in which every `open_write` that creates its file writes all of the
attributes. -/
def Finished (d : NcDriver) (strerror : Int → String) (s : OpenState) : Prop :=
  (d.system strerror).Reach (fun s c => d.unfinished s c = false) s

/-- State and library agree after calls that finish. -/
theorem Finished.matches (h : Finished d strerror s) : Matches s := by
  refine Lts.System.Reach.invariant ?_ ?_ h
  · rintro s rfl id
    simp
  · intro s c s' hs hfinished hstep
    obtain rfl := step_cases hstep
    exact hs.effect (call_effect s c) hfinished

/-- A closed driver has no file open. -/
theorem Matches.closed (h : Matches s) (hclosed : s.isOpen = false) : s.opened = [] := by
  refine List.eq_nil_iff_forall_not_mem.mpr fun id hid => ?_
  have := ((h id).mp hid).1
  rw [hclosed] at this
  cases this

/-- A call that throws opens nothing and closes nothing, unless it leaves a file behind. -/
theorem Effect.threw {b : Bool} {res : Except DriverThrow Unit} (h : Effect s s' b res)
    (hb : b = false) (hres : res ≠ .ok ()) : s'.isOpen = s.isOpen := by
  cases h with
  | same opened isOpen => exact isOpen
  | opens | closes => exact absurd rfl hres
  | leaves => cases hb

/-- A close that returns has closed. -/
theorem close_returned {status : Int} (h : (d.close strerror status s).1 = .ok ()) :
    (d.close strerror status s).2.isOpen = false := by
  unfold close at h ⊢
  split
  · next hopen =>
    simp only [if_pos hopen] at h
    simp only
    split
    · next e he =>
      rw [he] at h
      cases h
    · rfl
  · next hopen => simpa using hopen

/-- **The open state of a driver.** In a run in which no `open_write` fails after the creation of
its file, a file is open in the library exactly when `is_open_` is set, and then it is `ncid_`; and
after a call that fails there this is not so. In such a run, a call of a closed driver that throws
leaves no file open, and neither does a `close` that returns. -/
theorem open_state_matches (d : NcDriver) (strerror : Int → String) :
    (∀ s, Finished d strerror s → Matches s) ∧
      (∀ s c s', (d.system strerror).step s c = some s' → d.unfinished s c = true →
        ¬ Matches s') ∧
      (∀ s c s', Finished d strerror s → d.unfinished s c = false →
        (d.system strerror).step s c = some s' → s.isOpen = false →
        (d.call strerror s c).1 ≠ .ok () → s'.opened = []) ∧
      ∀ s status s', Finished d strerror s → (d.system strerror).step s (.close status) = some s' →
        (d.call strerror s (.close status)).1 = .ok () → s'.isOpen = false ∧ s'.opened = [] := by
  refine ⟨fun s hs => hs.matches, ?_, ?_, ?_⟩
  -- an open that is not finished leaves the file open in the library alone
  · intro s c s' hstep hunfinished
    obtain rfl := step_cases hstep
    exact not_matches_of_effect (hunfinished ▸ call_effect s c)
  -- a call that throws leaves the flag as it was
  · intro s c s' hs hfinished hstep hclosed hthrew
    have hopen : s'.isOpen = s.isOpen := by
      rw [step_cases hstep]
      exact (call_effect s c).threw hfinished hthrew
    have hs' : Finished d strerror s' := .step hs hfinished hstep
    exact hs'.matches.closed (hopen.trans hclosed)
  · intro s status s' hs hstep hreturned
    have hopen : s'.isOpen = false := by
      rw [step_cases hstep]
      exact close_returned hreturned
    have hs' : Finished d strerror s' := .step hs rfl hstep
    exact ⟨hopen, hs'.matches.closed hopen⟩

/-! ### Some runs -/

/-- The least that each driver wants to know: a path, or the fields of a Zarr array. -/
def leastConf (d : NcDriver) : AttrConf where
  has key :=
    match d with
    | netcdf => key == "path"
    | nczarr => NcZarr.zarrFields.contains key
  getInt _ := .ok 1
  getString key := .ok (if key == "codec" then "blosc" else "/data/out")
  getIntList _ := .ok [1]
  getStringList _ := .ok []
  getStringOr _ default := .ok default
  tryString _ := .ok none

/-- The file is not there; it is created, a write fails, and so does the first `close`. -/
def retriedOps (d : NcDriver) : List OpenCall :=
  [.openRead (leastConf d) false (.error 2) (.error 2),
    .openWrite (leastConf d) false (.ok 65536) (fun _ => 0), .write (.error (.runtime "disk full")),
    .close (-101), .close 0]

/-- `Conventions` cannot be written; then the driver is opened and closed without a failure. -/
def abandonedOps (d : NcDriver) : List OpenCall :=
  [.openWrite (leastConf d) false (.ok 65536) (fun _ => -33),
    .openWrite (leastConf d) false (.ok 131072) (fun _ => 0), .close 0]

/-- After the `close` that fails the file is still open, and the driver knows it. -/
theorem open_state_matches_of_retried :
    (∃ s, Finished .netcdf (fun _ => "") s ∧ s.isOpen = true ∧ s.ncid = 65536 ∧ Matches s) ∧
      ∃ s, Finished .nczarr (fun _ => "") s ∧ s.isOpen = true ∧ s.ncid = 65536 ∧ Matches s := by
  have hnetcdf : Finished .netcdf (fun _ => "") _ :=
    Lts.System.Reach.of_replay ((retriedOps .netcdf).take 4) (.init rfl) rfl
  have hnczarr : Finished .nczarr (fun _ => "") _ :=
    Lts.System.Reach.of_replay ((retriedOps .nczarr).take 4) (.init rfl) rfl
  exact ⟨⟨_, hnetcdf, rfl, rfl, (open_state_matches .netcdf fun _ => "").1 _ hnetcdf⟩,
    ⟨_, hnczarr, rfl, rfl, (open_state_matches .nczarr fun _ => "").1 _ hnczarr⟩⟩

/-- A file whose attributes could not be written stays open without a driver that knows it, and the
driver is used on as if nothing had happened. -/
theorem file_left_open :
    (∃ s, (system .netcdf fun _ => "").Reachable s ∧ s.isOpen = false ∧ s.opened = [65536] ∧
        ¬ Matches s) ∧
      (∃ s, (system .nczarr fun _ => "").Reachable s ∧ s.isOpen = false ∧ s.opened = [65536] ∧
        ¬ Matches s) ∧
      ∃ s, (system .netcdf fun _ => "").Reachable s ∧ s.isOpen = false ∧ s.ncid = -1 ∧
        s.opened = [65536] ∧ ¬ Matches s := by
  have hleft : ∀ s : OpenState, s.isOpen = false → s.opened = [65536] → ¬ Matches s := by
    intro s hclosed hopened h
    rw [h.closed hclosed] at hopened
    cases hopened
  refine ⟨⟨_, .of_replay ((abandonedOps .netcdf).take 1) rfl rfl, rfl, rfl, hleft _ rfl rfl⟩,
    ⟨_, .of_replay ((abandonedOps .nczarr).take 1) rfl rfl, rfl, rfl, hleft _ rfl rfl⟩,
    ⟨_, .of_replay (abandonedOps .netcdf) rfl rfl, rfl, rfl, rfl, hleft _ rfl rfl⟩⟩

end NcDriver

end Amio
