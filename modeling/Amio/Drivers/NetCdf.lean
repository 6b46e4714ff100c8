import Amio.Api.ViewShape

/-!
# The NetCDF driver

`drivers/netcdf/netcdf_driver.cpp`. A variable is defined by its first write. Its dimensions are
taken from the dimensions the file already has, if one of the right length can be found, and are
defined under default names otherwise; a coordinate variable of rank one has the dimension of its
own name, and that of `time` is unlimited. Each write then stores its block from the origin.
`describe_variable` takes the leading dimension for the timesteps if it is unlimited, has the name
of a time axis, or is described as one by the attributes of the variable of its name.

netCDF is not part of the repository. `NcFile` is a table of dimensions and of row-major arrays:
a block is stored where it is put, an unlimited dimension is as long as the longest block along it,
and a block is read from where it is stored. Whatever else netCDF may object to (names, types that
the data model lacks, the place of an unlimited dimension, failures of the file system) is
`Library.allows`, of which nothing is assumed.

Names come through the C boundary and hold no NUL, so that `c_str()` is the name.
-/

namespace Amio.NetCdf

open RowMajor

/-- A string of the source. -/
def text (s : String) : List UInt8 := s.toList.map fun c => UInt8.ofNat c.toNat

/-! ### netCDF -/

inductive NcType
  | byte | char | short | int | float | double | ubyte | ushort | uint | int64 | uint64 | string
  deriving DecidableEq

/-- The bytes of an element in memory. -/
def NcType.size : NcType → Nat
  | .byte | .char | .ubyte => 1
  | .short | .ushort => 2
  | .int | .float | .uint => 4
  | .double | .int64 | .uint64 | .string => 8

/-- An attribute; the value of a number is not read back. -/
inductive AttrValue
  | text (value : List UInt8)
  | number
  deriving DecidableEq

structure NcDim where
  name : List UInt8
  unlimited : Bool
  len : Nat
  deriving DecidableEq

/-- A variable; `content` gives the bytes of each cell. -/
structure NcVar where
  type : NcType
  dimids : List Nat
  attributes : List UInt8 → Option AttrValue
  content : List Nat → List UInt8

/-- A file. Dimensions are numbered in the order of their definition. -/
structure NcFile where
  dims : List NcDim
  vars : List UInt8 → Option NcVar

def NcFile.empty : NcFile := ⟨[], fun _ => none⟩

/-- The calls that netCDF may refuse. `define` stands for changing the mode of the file and setting
the attributes and filters of a variable. -/
inductive NcCall
  | define (name : List UInt8)
  | defDim (name : List UInt8) (len : Nat)
  | defVar (name : List UInt8) (type : NcType) (dimids : List Nat)
  | putVara (name : List UInt8) (count : List Nat)

/-- The library: what it allows, and the fill value of a type. -/
structure Library where
  allows : NcFile → NcCall → Bool
  fill : NcType → List UInt8

namespace NcFile

variable (lib : Library) (f : NcFile)

/-- `nc_inq_dimid`. -/
def inqDimid (name : List UInt8) : Option Nat := f.dims.findIdx? fun D => D.name = name

/-- `nc_inq_dimlen`. -/
def inqDimlen (id : Nat) : Nat := ((f.dims[id]?).map NcDim.len).getD 0

/-- `nc_inq_dimname`. -/
def inqDimname (id : Nat) : List UInt8 := ((f.dims[id]?).map NcDim.name).getD []

/-- Whether `nc_inq_unlimdims` lists the dimension. -/
def inqUnlim (id : Nat) : Bool := ((f.dims[id]?).map NcDim.unlimited).getD false

/-- `nc_def_dim`; the length `NC_UNLIMITED` is zero. -/
def defDim (name : List UInt8) (len : Nat) : Option (NcFile × Nat) :=
  if lib.allows f (.defDim name len) ∧ f.inqDimid name = none then
    some ({ f with dims := f.dims ++ [⟨name, decide (len = 0), len⟩] }, f.dims.length)
  else none

/-- `nc_def_var`. -/
def defVar (name : List UInt8) (type : NcType) (dimids : List Nat)
    (attributes : List UInt8 → Option AttrValue) : Option (NcFile × NcVar) :=
  if lib.allows f (.defVar name type dimids) then
    let v : NcVar := ⟨type, dimids, attributes, fun _ => lib.fill type⟩
    some ({ f with vars := Function.update f.vars name (some v) }, v)
  else none

/-- An unlimited dimension grows to hold `n`. -/
def grow (ds : List NcDim) (p : Nat × Nat) : List NcDim :=
  ds.modify p.1 fun D => if D.unlimited then { D with len := max D.len p.2 } else D

/-- A block of `count` cells fits along the dimensions. -/
def Holds (v : NcVar) (count : List Nat) : Prop :=
  List.Forall₂ (fun id n => f.inqUnlim id = true ∨ n ≤ f.inqDimlen id) v.dimids count

instance (v : NcVar) (count : List Nat) : Decidable (f.Holds v count) :=
  inferInstanceAs (Decidable (List.Forall₂ _ _ _))

/-- `nc_put_vara` from the origin; `data` has to hold the block. -/
def putVara (name : List UInt8) (v : NcVar) (count : List Nat) (data : List UInt8) :
    Option NcFile :=
  let m := v.type.size
  if lib.allows f (.putVara name count) ∧ f.Holds v count ∧ count.prod * m ≤ data.length then
    some
      -- an unlimited dimension grows to the extent
      { dims := (v.dimids.zip count).foldl grow f.dims
        vars := Function.update f.vars name (some { v with
          content := fun is =>
            -- the cells outside the box keep what they had
            if is ∈ cells count then (data.drop (position count is * m)).take m
            else v.content is }) }
  else none

/-- The index that a start, an index of the block and a step make. -/
def shift (start is steps : List Nat) : List Nat :=
  List.zipWith (· + ·) start (List.zipWith (· * ·) is steps)

/-- The last index along one dimension stays inside. -/
def Inside (v : NcVar) (start count steps : List Nat) : Prop :=
  start.length = v.dimids.length ∧ count.length = v.dimids.length ∧
    steps.length = v.dimids.length ∧
    (count.prod = 0 ∨ Within (v.dimids.map f.inqDimlen) (shift start (last count) steps))

instance (es is : List Nat) : Decidable (Within es is) :=
  inferInstanceAs (Decidable (List.Forall₂ _ _ _))

instance (v : NcVar) (start count steps : List Nat) : Decidable (f.Inside v start count steps) :=
  inferInstanceAs (Decidable (_ ∧ _ ∧ _ ∧ _))

/-- `nc_get_vars`; `nc_get_vara` is the case of steps one. -/
def getVars (v : NcVar) (start count steps : List Nat) : Option (List UInt8) :=
  if f.Inside v start count steps then
    some ((cells count).flatMap fun is => v.content (shift start is steps))
  else none

end NcFile

/-! ### Writing -/

/-- `NetCDF_Driver::dtype_to_nc_type`. -/
def dtypeToNcType : Dtype → NcType
  | .f32 => .float
  | .f64 => .double
  | .i8 => .byte
  | .i16 => .short
  | .i32 => .int
  | .i64 => .int64
  | .u8 => .ubyte
  | .u16 => .ushort
  | .u32 => .uint
  | .u64 => .uint64

/-- The names that are never given a shared dimension. -/
def isCoordinate (name : List UInt8) : Bool :=
  decide (name = text "lon" ∨ name = text "lat" ∨ name = text "lev" ∨ name = text "time")

/-- `dim_name`. -/
def dimName (name : List UInt8) (rank d : Nat) : List UInt8 :=
  if isCoordinate name ∧ rank = 1 then name else name ++ text "_dim" ++ text (toString d)

/-- `std::string::find`. -/
def contains (name needle : List UInt8) : Bool := decide (needle <:+: name)

/-- How well the name of a dimension suits an axis: the names of the axis, then names that hold one
of the `needles`, then default names. -/
def nameScore (names needles : List (List UInt8)) (name : List UInt8) : Int :=
  if names.any (· = name) then 3
  else if needles.any (contains name) then 2
  else if contains name (text "dim") then 1
  else 0

/-- `score` for dimension `d` of a variable of the given rank: the last dimensions are taken for
longitude, latitude, level and time, from the back. -/
def axisScore (rank d : Nat) : List UInt8 → Int :=
  if d + 1 = rank then nameScore [text "lon", text "x"] [text "lon", text "x"]
  else if d + 2 = rank then nameScore [text "lat", text "y"] [text "lat", text "y"]
  else if d + 3 = rank then
    nameScore [text "lev", text "z", text "level"] [text "lev", text "z"]
  else if d + 4 = rank then nameScore [text "time", text "t"] [text "time", text "t"]
  else fun _ => 0

namespace NcFile

variable (lib : Library) (f : NcFile)

/-- The first of the dimensions with the best score. -/
def bestDim (score : List UInt8 → Int) (ids : List Nat) : Option Nat :=
  (ids.foldl (fun best id =>
      if best.1 < score (f.inqDimname id) then (score (f.inqDimname id), some id) else best)
    ((-1 : Int), (none : Option Nat))).2

/-- The dimensions of a given length. -/
def matchingDimids (len : Nat) : List Nat :=
  (List.range f.dims.length).filter fun id => f.inqDimlen id = len

/-- The search for a dimension to share. -/
def sharedDim (rank d len : Nat) : Option Nat :=
  match f.matchingDimids len with
  | [] => none
  | [id] => some id
  | ids => f.bestDim (axisScore rank d) ids

/-- One turn of the loop over the dimensions of a new variable. -/
def defineDim (name : List UInt8) (rank d len : Nat) : Option (NcFile × Nat) :=
  match if isCoordinate name then none else f.sharedDim rank d len with
  | some id => some (f, id)
  | none =>
    match f.inqDimid (dimName name rank d) with
    | some id => some (f, id)
    -- the record dimension is unlimited
    | none =>
      f.defDim lib (dimName name rank d) (if dimName name rank d = text "time" then 0 else len)

/-- The loop, over the dimensions from `d` on. -/
def defineDims (name : List UInt8) (rank : Nat) : NcFile → Nat → List Nat →
    Option (NcFile × List Nat)
  | f, _, [] => some (f, [])
  | f, d, len :: lens =>
    (f.defineDim lib name rank d len).bind fun p =>
      (defineDims name rank p.1 (d + 1) lens).map fun q => (q.1, p.2 :: q.2)

end NcFile

/-- The driver with its file. `attributes` are those of the manifest. -/
structure Driver where
  isOpen : Bool
  isWriteMode : Bool
  attributes : List UInt8 → Option (List (List UInt8 × AttrValue))
  file : NcFile

/-- The attributes that `nc_write_attributes` sets. -/
def attributesOf (items : List (List UInt8 × AttrValue)) : List UInt8 → Option AttrValue :=
  items.foldl (fun m kv => Function.update m kv.1 (some kv.2)) fun _ => none

namespace Driver

variable (lib : Library) (d : Driver)

/-- `open_write` of a file that is to be created. -/
def openWrite (attributes : List UInt8 → Option (List (List UInt8 × AttrValue))) : Option Driver :=
  if d.isOpen then none else some ⟨true, true, attributes, .empty⟩

/-- `open_read`. -/
def openRead : Option Driver :=
  if d.isOpen then none else some { d with isOpen := true, isWriteMode := false }

/-- `close`; the file stays. -/
def close : Driver := { d with isOpen := false, isWriteMode := false }

/-- The definition of a variable by its first write. -/
def define (m : VarMeta) : Option (NcFile × NcVar) :=
  let extents := m.shape.extentList
  if lib.allows d.file (.define m.name) then
    (NcFile.defineDims lib m.name extents.length d.file 0 extents).bind fun p =>
      m.dtype.bind fun dtype =>
        -- the attributes of the manifest go with the definition
        p.1.defVar lib m.name (dtypeToNcType dtype) p.2
          (attributesOf ((d.attributes m.name).getD []))
  else none

/-- `write`. -/
def write (src : List UInt8) (m : VarMeta) : Option Driver :=
  if d.isOpen = true ∧ d.isWriteMode = true then
    (match d.file.vars m.name with
      | some v => some (d.file, v)
      | none => d.define lib m).bind fun p =>
        (p.1.putVara lib m.name p.2 m.shape.extentList src).map fun f => { d with file := f }
  else none

end Driver

/-! ### Describing -/

/-- `nc_type_to_dtype`. -/
def ncTypeToDtype : NcType → Option Dtype
  | .float => some .f32
  | .double => some .f64
  | .byte => some .i8
  | .short => some .i16
  | .int => some .i32
  | .int64 => some .i64
  | .ubyte => some .u8
  | .ushort => some .u16
  | .uint => some .u32
  | .uint64 => some .u64
  | .char | .string => none

/-- `std::tolower`, in the C locale. -/
def toLower (c : UInt8) : UInt8 := if 65 ≤ c ∧ c ≤ 90 then c + 32 else c

/-- `att_equals`; the value is cut at its first NUL. -/
def attEquals (v : NcVar) (att expected : String) : Bool :=
  match v.attributes (text att) with
  | some (.text value) =>
    decide (value ≠ [] ∧ (value.takeWhile (· ≠ 0)).map toLower = text expected)
  | _ => false

/-- `att_contains`. -/
def attContains (v : NcVar) (att needle : String) : Bool :=
  match v.attributes (text att) with
  | some (.text value) => decide (value ≠ []) && contains (value.map toLower) (text needle)
  | _ => false

namespace NcFile

variable (f : NcFile)

/-- `is_cf_time_dim`: by the name of the dimension, or by the attributes of its variable. -/
def isCfTimeDim (id : Nat) : Bool :=
  if [text "time", text "t", text "valid_time", text "forecast_time", text "record",
      text "hour_index"].any (· = (f.inqDimname id).map toLower) then true
  else
    -- else by the coordinate variable of the dimension, if it has one
    match f.vars (f.inqDimname id) with
    | some v => attEquals v "axis" "t" || attEquals v "standard_name" "time" ||
        attContains v "units" "since"
    | none => false

/-- `is_time_axis`. -/
def isTimeAxis (id : Nat) : Bool := f.inqUnlim id || f.isCfTimeDim id

end NcFile

namespace Driver

variable (d : Driver)

/-- `describe_variable`; `none` when it is not found. -/
def describeVariable (name : List UInt8) : Option VariableInfo :=
  if d.isOpen = true ∧ d.isWriteMode = false then
    (d.file.vars name).bind fun v =>
      (ncTypeToDtype v.type).bind fun dtype =>
        let ndims := v.dimids.length
        let extents := v.dimids.map d.file.inqDimlen
        if ndims < 1 ∨ maxRank < ndims then none
        else
          let timeAxis := d.file.isTimeAxis (v.dimids.headD 0)
          -- a variable that is nothing but its record dimension is described whole
          let shapeStart := if timeAxis ∧ 1 ≤ ndims - 1 then 1 else 0
          let totalTimesteps : Int := if shapeStart = 1 then (extents.headD 0 : Nat) else 1
          some
            { dtype := some dtype
              shape :=
                { rank := (ndims - shapeStart : Nat)
                  extents := fun k => ((extents[(k : Nat) + shapeStart]?).getD 0 : Nat)
                  strides := fun _ => 0 }
              totalTimesteps := if 0 < totalTimesteps then totalTimesteps else 1 }
  else none

end Driver

/-! ### Reading -/

/-- A vector of `n` entries `e`, of which the first are set to `l`; there is no answer when they do
not fit. -/
def padded (n e : Nat) (l : List Nat) : Option (List Nat) :=
  if l.length ≤ n then some (l ++ List.replicate (n - l.length) e) else none

/-- The entries that the timestep contributes. -/
def leading (timeVarying : Bool) (e : Nat) : List Nat := if timeVarying then [e] else []

/-- The box that `read` asks for, or the whole of the shape: offsets, extents and steps. -/
def selection (shape : Shape) : Option Bbox → List Nat × List Nat × List Nat
  | some b =>
    ((dims b.rank).map fun k => (b.offsets k).toNat, selectedExtents shape (some b),
      (dims b.rank).map fun k => if 1 < b.strides k then (b.strides k).toNat else 1)
  | none => (shape.extentList.map fun _ => 0, selectedExtents shape none, [])

/-- The `start`, `count` and `strides` that `read` makes for a variable of rank `ndims`; there is no
answer when an entry is written past their end. -/
def hyperslab (ndims : Nat) (shape : Shape) (timestep : Int) (bbox : Option Bbox) :
    Option (List Nat × List Nat × List Nat) :=
  let timeVarying := decide ((ndims : Int) = shape.rank + 1)
  let sel := selection shape bbox
  (padded ndims 0 (leading timeVarying (timestep % 2 ^ 64).toNat ++ sel.1)).bind fun start =>
    (padded ndims 0 (leading timeVarying 1 ++ sel.2.1)).bind fun count =>
      (padded ndims 1 (leading timeVarying 1 ++ sel.2.2)).map fun steps => (start, count, steps)

/-- `total_bytes` of `read`. -/
def totalBytes (ndims : Nat) (m : VarMeta) (count : List Nat) : Nat :=
  let timeVarying := decide ((ndims : Int) = m.shape.rank + 1)
  let rest := (count.drop (leading timeVarying 1).length).take m.shape.rank.toNat
  u64 (rest.foldl (fun n e => u64 (n * e)) 1 * elementSize m.dtype)

namespace Driver

variable (d : Driver)

/-- `read` into a buffer of the given capacity: what is delivered and `used_bytes`, or what it
throws. -/
def tryRead (capacity : Nat) (m : VarMeta) (timestep : Int) (bbox : Option Bbox) :
    Except ReadError (List UInt8 × Nat) :=
  if d.isOpen = true ∧ d.isWriteMode = false then
    match d.file.vars m.name with
    | none => .error .failed
    | some v =>
      match hyperslab v.dimids.length m.shape timestep bbox with
      | none => .error .failed
      | some (start, count, steps) =>
        -- `dtype_byte_size` throws for a dtype that it does not know
        if elementSize m.dtype = 0 then .error .failed
        else
          readInto capacity (totalBytes v.dimids.length m count)
            (d.file.getVars v start count steps)
  else .error .failed

/-- `read` for a caller that catches every exception alike, as `sync_fetch` does. -/
def read (capacity : Nat) (m : VarMeta) (timestep : Int) (bbox : Option Bbox) :
    Option (List UInt8 × Nat) :=
  (d.tryRead capacity m timestep bbox).toOption

end Driver

/-- `read` of a hyperslab that was made, with a dtype that is known. -/
theorem Driver.tryRead_eq {d : Driver} (hopen : d.isOpen = true ∧ d.isWriteMode = false)
    {m : VarMeta} {v : NcVar} (hv : d.file.vars m.name = some v) {t : Int} {bbox : Option Bbox}
    {start count steps : List Nat}
    (hslab : hyperslab v.dimids.length m.shape t bbox = some (start, count, steps))
    (hsize : elementSize m.dtype ≠ 0) (capacity : Nat) :
    d.tryRead capacity m t bbox = readInto capacity (totalBytes v.dimids.length m count)
      (d.file.getVars v start count steps) := by
  simp only [Driver.tryRead, if_pos hopen, hv, hslab, if_neg hsize]

/-- **`read`**: the hyperslab, the capacity, the library. -/
theorem read_eq {d : Driver} (hopen : d.isOpen = true ∧ d.isWriteMode = false) {m : VarMeta}
    {v : NcVar} (hv : d.file.vars m.name = some v) (capacity : Nat) (t : Int)
    (bbox : Option Bbox) :
    d.read capacity m t bbox = (hyperslab v.dimids.length m.shape t bbox).bind fun slab =>
      let total := totalBytes v.dimids.length m slab.2.1
      if elementSize m.dtype = 0 ∨ capacity < total then none
      else (d.file.getVars v slab.1 slab.2.1 slab.2.2).map fun out => (out, total) := by
  simp only [Driver.read, Driver.tryRead, if_pos hopen, hv]
  cases hyperslab v.dimids.length m.shape t bbox with
  | none => rfl
  | some slab =>
    by_cases hsize : elementSize m.dtype = 0
    · simp [hsize, Except.toOption]
    · simp [hsize, toOption_readInto]

end Amio.NetCdf
