import Amio.Config.Loader
import Amio.Drivers.NetCdf
import Amio.Lib.Strtod

/-!
# Attributes

`drivers/common/var_attributes.{hpp,cpp}`, and the functions by which the NetCDF driver and the
NCZarr fallback of the Zarr driver write attributes. A value of the manifest is a string;
`parse_attr_value` asks `strtod` whether it is a number, and takes it for an integer if there is no
`'.'`, `'e'` or `'E'` in the text. The writers cast the number to `int` or `long long` when it was
taken for an integer, and for the `_FillValue` of an integer variable.

`strtod` follows the C grammar (`Strtod`), which has numbers without any of the three characters
that are no integers. The result is `integer_casts_iff`: for which strings, names and types every
cast is given an integer of its type. By `dataset_castsFit_iff` these are the strings of the
manifest, but for units.
-/

namespace Amio

open Strtod
open NetCdf (NcType)

/-! ### The values -/

/-- `number` is zero for what is no number. -/
structure AttrValue where
  text : String
  number : Double := .finite 0
  isNumeric : Bool := false
  isInteger : Bool := false

/-- `raw.c_str()`: the characters before the first NUL. -/
def cStr (raw : String) : List Char := raw.toList.takeWhile (· ≠ '\x00')

/-- No decimal point and no exponent appears in the text. -/
def unmarked (raw : String) : Bool :=
  !raw.toList.contains '.' && !raw.toList.contains 'e' && !raw.toList.contains 'E'

/-- `parse_attr_value`. Positions in the string are told apart by what follows them. -/
def parseAttrValue (raw : String) : AttrValue :=
  if raw = "" then { text := raw }
  else
    let (d, rest) := strtod (cStr raw)
    let stop := rest.dropWhile isSpace
    -- `*end == '\0' && end != begin`
    if stop = [] ∧ stop ≠ cStr raw then
      { text := raw, number := d, isNumeric := true, isInteger := unmarked raw }
    else { text := raw }

/-- The attributes of one variable, in the order of the manifest. -/
structure VarAttributes where
  items : List (String × AttrValue) := []

namespace VarAttributes

def setItem (key : String) (value : AttrValue) : List (String × AttrValue) →
    List (String × AttrValue)
  | [] => [(key, value)]
  | kv :: rest => if kv.1 = key then (kv.1, value) :: rest else kv :: setItem key value rest

/-- `set`: an attribute that is there keeps its place. -/
def set (attrs : VarAttributes) (key : String) (value : AttrValue) : VarAttributes :=
  ⟨setItem key value attrs.items⟩

end VarAttributes

/-! ### The manifest -/

/-- `conf::Config` with its `try_string`, which answers nothing where there is no string. -/
structure AttrConf extends Conf where
  tryString : String → Except ConfError (Option String)

abbrev kDefaultCFConventions : String := "CF-1.10"

abbrev kDefaultCFUGRIDConventions : String := "CF-1.10 UGRID-1.0"

/-- The attributes of a dataset. The first entry for a variable counts, as with
`std::map::emplace`. -/
structure DatasetAttributes where
  conventions : String := kDefaultCFConventions
  global : VarAttributes := {}
  perVariable : List (String × VarAttributes) := []
  usesUgrid : Bool := false

/-- `known_global_keys`. -/
def knownGlobalKeys : List String :=
  ["title", "institution", "source", "history", "references", "comment", "Conventions", "contact",
    "project", "keywords", "summary", "acknowledgement", "id", "license", "creator_name",
    "creator_url", "creator_email", "publisher_name", "publisher_url", "publisher_email",
    "geospatial_bounds", "geospatial_lat_min", "geospatial_lat_max", "geospatial_lon_min",
    "geospatial_lon_max", "geospatial_vertical_min", "geospatial_vertical_max",
    "geospatial_vertical_positive", "geospatial_bounds_crs", "geospatial_bounds_vertical_crs",
    "naming_authority", "project", "processing_level", "standard_name_vocabulary",
    "time_coverage_start", "time_coverage_end", "time_coverage_duration",
    "time_coverage_resolution", "date_created", "date_modified", "date_metadata_modified",
    "cdm_data_type", "featureType", "ncei_template_version", "uuid", "gridspec_file"]

/-- `known_var_keys`. -/
def knownVarKeys : List String :=
  ["units", "long_name", "standard_name", "_FillValue", "coordinates", "cell_methods", "cf_role",
    "mesh", "location", "topology_dimension", "scale_factor", "add_offset", "valid_min",
    "valid_max", "valid_range", "bounds", "axis", "grid_mapping", "coverage_content_type"]

/-- `has_ugrid_role`. -/
def hasUgridRole (attrs : VarAttributes) : Bool :=
  attrs.items.any fun kv => ["cf_role", "topology_dimension", "mesh_topology"].contains kv.1

/-- The values under `path`, for the keys that have one. -/
def readKnown (m : AttrConf) (path : String) (value : String → String → AttrValue)
    (keys : List String) : Except ConfError VarAttributes :=
  keys.foldlM (fun attrs key => do
    match ← m.tryString (path ++ "." ++ key) with
    | some raw => pure (attrs.set key (value key raw))
    | none => pure attrs) {}

/-- CF units are text, including the dimensionless unit "1". -/
def varValue (key raw : String) : AttrValue :=
  if key = "units" then { text := raw } else parseAttrValue raw

/-- The loop over `variable_names`. An exception ends it and is ignored. -/
def readVariables (m : AttrConf) : List String → DatasetAttributes → DatasetAttributes
  | [], out => out
  | name :: rest, out =>
    let path := "variables." ++ name ++ ".attributes"
    if m.has path then
      match readKnown m path varValue knownVarKeys with
      -- a key that throws ends the reading, and what was kept stays
      | .error _ => out
      | .ok attrs =>
        readVariables m rest { out with
          usesUgrid := out.usesUgrid || hasUgridRole attrs
          perVariable :=
            if attrs.items = [] then out.perVariable else out.perVariable ++ [(name, attrs)] }
    else readVariables m rest out

/-- `parse_dataset_attributes`. -/
def parseDatasetAttributes (m : AttrConf) : Except ConfError DatasetAttributes := do
  let global ←
    if m.has "global_attributes" then
      readKnown m "global_attributes" (fun _ raw => parseAttrValue raw) knownGlobalKeys
    else pure {}
  let names := if m.has "variable_names" then m.getStringList "variable_names" else .ok []
  let out : DatasetAttributes :=
    match names with
    | .error _ => { global := global }
    | .ok names => readVariables m names { global := global }
  -- an explicit value wins
  let conventions ←
    if m.has "conventions" then m.getStringOr "conventions" kDefaultCFConventions
    else pure (if out.usesUgrid then kDefaultCFUGRIDConventions else kDefaultCFConventions)
  pure { out with conventions := conventions }

/-! ### Writing them -/

/-- A call `nc_put_att_...` for one attribute. `int` and `longlong` are given the number cast to
their type, and `float` the number narrowed to it. -/
inductive PutAtt
  | text (value : String)
  | float (number : Double)
  | double (number : Double)
  | int (number : Double)
  | longlong (number : Double)

/-- The cast that is made for a call: the bits of its type besides the sign, and its operand. -/
def PutAtt.cast : PutAtt → Option (Nat × Double)
  | .int number => some (31, number)
  | .longlong number => some (63, number)
  | .text _ => none
  | .float _ => none
  | .double _ => none

/-- The call for a number that has no type of its own. -/
def putNumber (val : AttrValue) : PutAtt :=
  if val.isInteger then .longlong val.number else .double val.number

/-- The call for one attribute, of the file if `isGlobal`; `type` is absent for `NC_NAT`. -/
def putAttribute (isGlobal : Bool) (type : Option NcType) (name : String) (val : AttrValue) :
    PutAtt :=
  if val.isNumeric then
    if name = "_FillValue" ∧ isGlobal = false then
      match type with
      | some .float => .float val.number
      | some .double => .double val.number
      | some .int => .int val.number
      | some .int64 => .longlong val.number
      -- generic numeric handling
      | _ => putNumber val
    else putNumber val
  else .text val.text

/-- The calls for a set of attributes, each with the name it is given. -/
def putAttributes (isGlobal : Bool) (type : Option NcType) (attrs : VarAttributes) :
    List (String × PutAtt) :=
  attrs.items.map fun kv => (kv.1, putAttribute isGlobal type kv.1 kv.2)

/-- `nc_write_attributes`; the first call that fails throws. -/
def ncWriteAttributes : Bool → Option NcType → VarAttributes → List (String × PutAtt) :=
  putAttributes

/-- `nczarr_write_attributes`, which is the same but for the text of its exceptions. -/
def nczarrWriteAttributes : Bool → Option NcType → VarAttributes → List (String × PutAtt) :=
  putAttributes

/-! ### What is a number -/

variable {raw name : String} {isGlobal negative : Bool} {type : Option NcType} {m : Magnitude}

/-- What `parse_attr_value` comes to: the text only; the number that the text denotes; or zero for
white space, which the loop after `strtod` passes over although nothing was converted. -/
inductive Parsed (raw : String) : AttrValue → Prop
  | text (none : ∀ negative m, ¬ Denotes (cStr raw) negative m) : Parsed raw { text := raw }
  | blank (space : ∀ c ∈ cStr raw, isSpace c = true) :
      Parsed raw { text := raw, isNumeric := true, isInteger := unmarked raw }
  | number {negative : Bool} {m : Magnitude} (denotes : Denotes (cStr raw) negative m) :
      Parsed raw { text := raw, number := m.round negative, isNumeric := true
                   isInteger := unmarked raw }

/-- **A string that denotes a number is taken for that number.** -/
theorem parseAttrValue_of_denotes (h : Denotes (cStr raw) negative m) :
    parseAttrValue raw = { text := raw, number := m.round negative, isNumeric := true
                           isInteger := unmarked raw } := by
  obtain ⟨rest, hscan, hrest⟩ := strtod_of_denotes h
  have hne : cStr raw ≠ [] := h.ne_nil
  have hraw : raw ≠ "" := by
    rintro rfl
    exact hne rfl
  have hstop : rest.dropWhile isSpace = [] := List.dropWhile_eq_nil_iff.mpr hrest
  simp [parseAttrValue, hraw, hscan, hstop, hne.symm]

/-- What `parse_attr_value` makes of a text. -/
theorem parseAttrValue_cases (raw : String) : Parsed raw (parseAttrValue raw) := by
  by_cases hdenotes : ∃ negative m, Denotes (cStr raw) negative m
  · obtain ⟨negative, m, h⟩ := hdenotes
    rw [parseAttrValue_of_denotes h]
    exact .number h
  -- the text denotes no number: `strtod` stops before its end, or it is blank
  · have hnone : ∀ negative m, ¬ Denotes (cStr raw) negative m :=
      fun negative m h => hdenotes ⟨negative, m, h⟩
    unfold parseAttrValue
    simp only
    split
    · exact .text hnone
    · split
      · next hraw hstop =>
        obtain ⟨d, rest, hscan⟩ : ∃ d rest, strtod (cStr raw) = (d, rest) := ⟨_, _, rfl⟩
        rw [hscan] at hstop ⊢
        -- blank, for a number would be denoted
        rcases denotes_of_strtod hscan (List.dropWhile_eq_nil_iff.mp hstop.1) with
          ⟨negative, m, h, -⟩ | ⟨hspace, rfl⟩
        · exact absurd h (hnone negative m)
        · exact .blank hspace
      · exact .text hnone

@[simp] theorem parseAttrValue_text (raw : String) : (parseAttrValue raw).text = raw := by
  have hparsed := parseAttrValue_cases raw
  generalize parseAttrValue raw = val at hparsed
  cases hparsed <;> rfl

/-! ### The casts -/

/-- The cast that the name, the type and the spelling select for a number, by its bits. -/
def castBits (isGlobal : Bool) (type : Option NcType) (name : String) (plain : Bool) :
    Option Nat :=
  -- a fill value goes into the type of its variable
  if name = "_FillValue" ∧ isGlobal = false then
    match type with
    | some .float | some .double => none
    | some .int => some 31
    | some .int64 => some 63
    | _ => if plain then some 63 else none
  else if plain then some 63 else none

/-- The cast that an attribute goes through, if any. -/
theorem cast_putAttribute (isGlobal : Bool) (type : Option NcType) (name : String)
    (val : AttrValue) : (putAttribute isGlobal type name val).cast =
      if val.isNumeric then (castBits isGlobal type name val.isInteger).map (·, val.number)
      else none := by
  have hnumber : (putNumber val).cast =
      (if val.isInteger then some 63 else none).map (·, val.number) := by
    unfold putNumber
    split <;> rfl
  unfold putAttribute castBits
  split
  · split
    · split
      all_goals first | rfl | (simp only [hnumber])
    · exact hnumber
  · rfl

/-- The number is an integer of the type after rounding: below `2 ^ k` by more than half of the last
place there, or at most half of one beyond `-2 ^ k`. -/
def RoundsInto (k : Nat) (negative : Bool) : Magnitude → Prop
  | .finite q => (∃ n : ℤ, Binary64.nearest q = n) ∧
      if negative then q ≤ 2 ^ k + 2 ^ ((k : ℤ) - 53) else q < 2 ^ k - 2 ^ ((k : ℤ) - 54)
  | .infinite => False
  | .nan => False

/-- A rounded number fits exactly when it rounds into the range. -/
theorem round_fits_iff {k : Nat} (hk : k < 1024) (hm : m.Nonneg) :
    (m.round negative).Fits k ↔ RoundsInto k negative m := by
  cases m with
  | finite q => exact Binary64.round_fits_iff hk hm negative
  | infinite | nan => exact Iff.rfl

/-- The casts are to `int` and to `long long`. -/
theorem castBits_cases {plain : Bool} {k : Nat} (h : castBits isGlobal type name plain = some k) :
    k = 31 ∨ k = 63 := by
  -- an integer without a type of its own goes through `long long`
  have hplain : ∀ {j : Nat}, (if plain then some 63 else none) = some j → j = 63 := by
    intro j hj
    obtain ⟨-, rfl⟩ := by simpa using hj
    rfl
  unfold castBits at h
  split at h
  · split at h
    · cases h
    · cases h
    · exact .inl (Option.some.inj h).symm
    · exact .inr (Option.some.inj h).symm
    · exact .inr (hplain h)
  · exact .inr (hplain h)

/-- The casts are to small types. -/
theorem castBits_lt {plain : Bool} {k : Nat} (h : castBits isGlobal type name plain = some k) :
    k < 1024 := by
  rcases castBits_cases h with rfl | rfl <;> norm_num

/-- Zero is an integer of every type. -/
theorem zero_fits (k : Nat) : (Double.finite 0).Fits k :=
  ⟨0, by simp, by simp, by positivity⟩

/-- **When the cast of a value is given an integer of its type.** -/
theorem cast_fits_iff (isGlobal : Bool) (type : Option NcType) (name raw : String) :
    (∀ k x, (putAttribute isGlobal type name (parseAttrValue raw)).cast = some (k, x) → x.Fits k) ↔
      ∀ k, castBits isGlobal type name (unmarked raw) = some k →
        ∀ negative m, Denotes (cStr raw) negative m → RoundsInto k negative m := by
  constructor
  · intro hall k hbits negative m hdenotes
    -- a text that denotes a number is cast as that number, rounded
    have hcast := cast_putAttribute isGlobal type name (parseAttrValue raw)
    rw [parseAttrValue_of_denotes hdenotes] at hcast
    simp only [if_true, hbits, Option.map_some] at hcast
    rw [← round_fits_iff (castBits_lt hbits) hdenotes.nonneg]
    rw [← parseAttrValue_of_denotes hdenotes] at hcast
    exact hall k _ hcast
  · intro hall k x hcast
    rw [cast_putAttribute] at hcast
    have hparsed := parseAttrValue_cases raw
    generalize parseAttrValue raw = val at hparsed hcast
    cases hparsed with
    -- a text is not cast
    | text => cases hcast
    -- a blank one is cast as zero, which fits
    | blank =>
      obtain ⟨j, -, heq⟩ := Option.map_eq_some_iff.mp hcast
      obtain ⟨rfl, rfl⟩ := Prod.mk.inj heq
      exact zero_fits _
    | @number negative m hdenotes =>
      obtain ⟨j, hbits, heq⟩ := Option.map_eq_some_iff.mp hcast
      obtain ⟨rfl, rfl⟩ := Prod.mk.inj heq
      exact (round_fits_iff (castBits_lt hbits) hdenotes.nonneg).mpr
        (hall _ hbits negative m hdenotes)

/-- Every cast that the calls make is given an integer of its type. -/
def CastsFit (calls : List (String × PutAtt)) : Prop :=
  ∀ call ∈ calls, ∀ k x, call.2.cast = some (k, x) → x.Fits k

/-- Whatever number the text denotes is an integer of the type that the attribute is cast to, if it
is cast to one. -/
def DenotesInteger (isGlobal : Bool) (type : Option NcType) (name raw : String) : Prop :=
  ∀ k, castBits isGlobal type name (unmarked raw) = some k →
    ∀ negative m, Denotes (cStr raw) negative m → RoundsInto k negative m

/-- A set of attributes as it is parsed, from names and texts. -/
def VarAttributes.ofTexts (raws : List (String × String)) : VarAttributes :=
  ⟨raws.map fun p => (p.1, parseAttrValue p.2)⟩

/-- The casts fit exactly when the texts denote integers in range. -/
theorem castsFit_putAttributes_iff (isGlobal : Bool) (type : Option NcType)
    (raws : List (String × String)) :
    CastsFit (putAttributes isGlobal type (.ofTexts raws)) ↔
      ∀ p ∈ raws, DenotesInteger isGlobal type p.1 p.2 := by
  simp only [CastsFit, putAttributes, VarAttributes.ofTexts, List.map_map, List.forall_mem_map,
    Function.comp_apply, cast_fits_iff]
  exact Iff.rfl

/-- **Which texts are cast to integers.** Whatever the attributes and the type of the variable, the
casts of both drivers are given integers of their types if and only if no text that is cast denotes
anything else: an infinity, a NaN, a value that does not round to an integer, or one that is out of
range. -/
theorem integer_casts_iff (isGlobal : Bool) (type : Option NcType) (raws : List (String × String)) :
    (CastsFit (ncWriteAttributes isGlobal type (.ofTexts raws)) ↔
        ∀ p ∈ raws, DenotesInteger isGlobal type p.1 p.2) ∧
      (CastsFit (nczarrWriteAttributes isGlobal type (.ofTexts raws)) ↔
        ∀ p ∈ raws, DenotesInteger isGlobal type p.1 p.2) :=
  ⟨castsFit_putAttributes_iff isGlobal type raws, castsFit_putAttributes_iff isGlobal type raws⟩

/-! ### The attributes of a manifest -/

section Manifest

variable {m : AttrConf} {path : String} {value : String → String → AttrValue}
  {keys : List String} {attrs : VarAttributes} {out : DatasetAttributes}

/-- Every value was read under `path`. -/
def VarAttributes.ReadFrom (m : AttrConf) (path : String) (value : String → String → AttrValue)
    (attrs : VarAttributes) : Prop :=
  ∀ kv ∈ attrs.items, ∃ raw, m.tryString (path ++ "." ++ kv.1) = .ok (some raw) ∧
    kv.2 = value kv.1 raw

/-- An item after another was set. -/
theorem VarAttributes.mem_set {key : String} {v : AttrValue} {kv : String × AttrValue}
    (h : kv ∈ (attrs.set key v).items) : kv = (key, v) ∨ kv ∈ attrs.items := by
  obtain ⟨items⟩ := attrs
  simp only [VarAttributes.set] at h
  induction items with
  | nil => exact .inl (List.mem_singleton.mp h)
  | cons head rest ih =>
    unfold setItem at h
    split at h
    · next hkey =>
      rcases List.mem_cons.mp h with rfl | h
      · exact .inl (Prod.ext hkey rfl)
      · exact .inr (List.mem_cons_of_mem _ h)
    · rcases List.mem_cons.mp h with rfl | h
      · exact .inr List.mem_cons_self
      · exact (ih h).imp_right (List.mem_cons_of_mem _)

/-- An attribute that is read from the manifest. -/
theorem VarAttributes.ReadFrom.set {key raw : String} (h : attrs.ReadFrom m path value)
    (hraw : m.tryString (path ++ "." ++ key) = .ok (some raw)) :
    (attrs.set key (value key raw)).ReadFrom m path value := by
  intro kv hkv
  rcases mem_set hkv with rfl | hkv
  · exact ⟨raw, hraw, rfl⟩
  · exact h kv hkv

/-- All known keys are read from the manifest. -/
theorem readKnown_readFrom (h : readKnown m path value keys = .ok attrs) :
    attrs.ReadFrom m path value := by
  have hempty : VarAttributes.ReadFrom m path value {} := by
    intro kv hkv
    cases hkv
  unfold readKnown at h
  -- induction on the keys, for any attributes that were read before
  generalize ({} : VarAttributes) = init at h hempty
  induction keys generalizing init with
  | nil =>
    cases h
    exact hempty
  | cons key keys ih =>
    rw [List.foldlM_cons] at h
    cases hraw : m.tryString (path ++ "." ++ key) with
    | error e =>
      rw [hraw] at h
      cases h
    | ok found =>
      rw [hraw] at h
      cases found with
      | none => exact ih _ h hempty
      | some raw => exact ih _ h (hempty.set hraw)

/-- Every set of attributes was read from its own place in the manifest. -/
structure DatasetAttributes.ReadFrom (m : AttrConf) (out : DatasetAttributes) : Prop where
  global : out.global.ReadFrom m "global_attributes" fun _ raw => parseAttrValue raw
  perVariable : ∀ v ∈ out.perVariable,
    v.2.ReadFrom m ("variables." ++ v.1 ++ ".attributes") varValue

theorem readVariables_readFrom {names : List String} (h : out.ReadFrom m) :
    (readVariables m names out).ReadFrom m := by
  fun_induction readVariables m names out with
  | case1 => exact h
  | case2 => exact h
  | case3 out name rest path hhas attrs hread ih =>
    refine ih ⟨h.global, fun v hv => ?_⟩
    simp only at hv
    split at hv
    · exact h.perVariable v hv
    · rcases List.mem_append.mp hv with hv | hv
      · exact h.perVariable v hv
      · rw [List.mem_singleton.mp hv]
        exact readKnown_readFrom hread
  | case4 out name rest path hhas ih => exact ih h

/-- A computation in two steps that succeeds. -/
theorem except_bind_eq_ok {ε α β : Type} {x : Except ε α} {f : α → Except ε β} {b : β} :
    (x >>= f) = .ok b ↔ ∃ a, x = .ok a ∧ f a = .ok b := by
  cases x with
  | error e =>
    constructor
    · rintro ⟨⟩
    · rintro ⟨a, ⟨⟩, -⟩
  | ok a =>
    constructor
    · intro h
      exact ⟨a, rfl, h⟩
    · rintro ⟨a, ⟨⟩, h⟩
      exact h

/-- **No value is made up**: whatever `parse_dataset_attributes` returns was read from the
manifest. -/
theorem parseDatasetAttributes_readFrom (h : parseDatasetAttributes m = .ok out) :
    out.ReadFrom m := by
  -- the variables and the conventions, once the attributes of the file are read
  have hrest : ∀ {global : VarAttributes} {names : Except ConfError (List String)}
      {conventions : String},
      global.ReadFrom m "global_attributes" (fun _ raw => parseAttrValue raw) →
      DatasetAttributes.ReadFrom m { (match names with
        | .error _ => { global := global }
        | .ok names => readVariables m names { global := global } : DatasetAttributes) with
          conventions := conventions } := by
    intro global names conventions hread
    have hinit : DatasetAttributes.ReadFrom m { global := global } :=
      ⟨hread, fun v hv => by cases hv⟩
    cases names with
    | error e => exact ⟨hinit.global, hinit.perVariable⟩
    | ok names =>
      have hall : (readVariables m names _).ReadFrom m := readVariables_readFrom hinit
      exact ⟨hall.global, hall.perVariable⟩
  unfold parseDatasetAttributes at h
  simp only at h
  split at h
  · obtain ⟨global, hglobal, h⟩ := except_bind_eq_ok.mp h
    split at h
    · obtain ⟨conventions, -, h⟩ := except_bind_eq_ok.mp h
      cases h
      exact hrest (readKnown_readFrom hglobal)
    · cases h
      exact hrest (readKnown_readFrom hglobal)
  · obtain ⟨global, ⟨⟩, h⟩ := except_bind_eq_ok.mp h
    have hempty : VarAttributes.ReadFrom m "global_attributes" (fun _ raw => parseAttrValue raw)
        {} := by
      intro kv hkv
      cases hkv
    split at h
    · obtain ⟨conventions, -, h⟩ := except_bind_eq_ok.mp h
      cases h
      exact hrest hempty
    · cases h
      exact hrest hempty

/-- The calls for what was read from a manifest, whatever is left as text. -/
theorem VarAttributes.ReadFrom.castsFit_iff (h : attrs.ReadFrom m path value)
    (plain : String → Prop) (htext : ∀ key raw, plain key → value key raw = { text := raw })
    (hparse : ∀ key raw, ¬ plain key → value key raw = parseAttrValue raw) :
    CastsFit (putAttributes isGlobal type attrs) ↔
      ∀ kv ∈ attrs.items, ¬ plain kv.1 → DenotesInteger isGlobal type kv.1 kv.2.text := by
  simp only [CastsFit, putAttributes, List.forall_mem_map]
  refine forall₂_congr fun kv hkv => ?_
  obtain ⟨raw, -, hvalue⟩ := h kv hkv
  rw [hvalue]
  by_cases hplain : plain kv.1
  · rw [htext _ _ hplain]
    exact ⟨fun _ hne => absurd hplain hne, fun _ k x hcast => by cases hcast⟩
  · rw [hparse _ _ hplain, cast_fits_iff, parseAttrValue_text]
    exact ⟨fun hall _ => hall, fun hall => hall hplain⟩

/-- **The attributes of a dataset**: which texts of the manifest matter for the casts. Units are
written as text. -/
theorem dataset_castsFit_iff (h : parseDatasetAttributes m = .ok out) :
    (CastsFit (putAttributes true none out.global) ↔
        ∀ kv ∈ out.global.items, DenotesInteger true none kv.1 kv.2.text) ∧
      ∀ v ∈ out.perVariable, CastsFit (putAttributes false type v.2) ↔
        ∀ kv ∈ v.2.items, kv.1 ≠ "units" → DenotesInteger false type kv.1 kv.2.text := by
  have hread := parseDatasetAttributes_readFrom h
  constructor
  · have hglobal : CastsFit (putAttributes true none out.global) ↔ _ :=
      hread.global.castsFit_iff (fun _ => False) (fun _ _ => False.elim) fun _ _ _ => rfl
    simpa using hglobal
  · intro v hv
    exact (hread.perVariable v hv).castsFit_iff (· = "units")
      (fun _ _ hunits => if_pos hunits) fun _ _ hunits => if_neg hunits

end Manifest

/-! ### Plain integers -/

/-- What may be taken for an integer: an integer in decimal digits, and what else `strtod` accepts
without a point and an `e`. -/
theorem unmarked_cases (hplain : unmarked raw = true) (h : Denotes (cStr raw) negative m) :
    (∃ n : ℕ, m = .finite n) ∨ (∃ i f e, m = .finite (hexValue i f e)) ∨ m = .infinite ∨
      m = .nan := by
  refine h.unmarked_cases fun c hc => ?_
  have hraw : c ∈ raw.toList := (List.takeWhile_subset _) hc
  simp only [unmarked, List.contains_eq_mem, Bool.and_eq_true, Bool.not_eq_true',
    decide_eq_false_iff_not] at hplain
  -- no point and no exponent mark
  refine ⟨?_, ?_⟩
  · rintro rfl
    exact hplain.1.1 hraw
  · rw [isE, Bool.or_eq_false_iff, beq_eq_false_iff_ne, beq_eq_false_iff_ne]
    constructor
    · rintro rfl
      exact hplain.1.2 hraw
    · rintro rfl
      exact hplain.2 hraw

/-- The integers that round into the range. -/
theorem natCast_roundsInto_iff (k n : ℕ) : RoundsInto k negative (.finite n) ↔
    if negative then (n : ℚ) ≤ 2 ^ k + 2 ^ ((k : ℤ) - 53)
    else (n : ℚ) < 2 ^ k - 2 ^ ((k : ℤ) - 54) :=
  and_iff_right (Binary64.nearest_natCast n)

/-- Integers from `-2 ^ 63 - 1024` to below `2 ^ 63 - 512` are in the range of `long long`. -/
theorem natCast_roundsInto_longlong {n : ℕ} : RoundsInto 63 negative (.finite n) ↔
    if negative then n ≤ 2 ^ 63 + 1024 else n < 2 ^ 63 - 512 := by
  rw [natCast_roundsInto_iff]
  split <;> norm_num

/-- For `int` the rounding makes no difference. -/
theorem natCast_roundsInto_int {n : ℕ} : RoundsInto 31 negative (.finite n) ↔
    if negative then n ≤ 2 ^ 31 else n < 2 ^ 31 := by
  rw [natCast_roundsInto_iff]
  split
  · constructor
    -- the bounds of `RoundsInto` are half a unit apart from the integers
    · intro h
      by_contra hlt
      have hgt : 2 ^ 31 + 1 ≤ n := not_le.mp hlt
      have hcast : ((2 ^ 31 + 1 : ℕ) : ℚ) ≤ n := Nat.cast_le.mpr hgt
      push_cast at hcast
      norm_num at h
      linarith
    · intro h
      have hcast : (n : ℚ) ≤ 2 ^ 31 := by exact_mod_cast h
      exact hcast.trans (le_add_of_nonneg_right (by positivity))
  · constructor
    · intro h
      have hcast : (n : ℚ) < 2 ^ 31 := h.trans_le (sub_le_self _ (by positivity))
      exact_mod_cast hcast
    · intro h
      have hcast : (n + 1 : ℚ) ≤ 2 ^ 31 := by exact_mod_cast h
      norm_num at hcast ⊢
      linarith

/-- **Which integers are written as they are**, of those in decimal digits (or of any text for a
natural number): what matters is the type that the cast is to. -/
theorem denotesInteger_natCast {n : ℕ} (h : Denotes (cStr raw) negative (.finite n)) :
    DenotesInteger isGlobal type name raw ↔
      (castBits isGlobal type name (unmarked raw) = some 31 →
        if negative then n ≤ 2 ^ 31 else n < 2 ^ 31) ∧
      (castBits isGlobal type name (unmarked raw) = some 63 →
        if negative then n ≤ 2 ^ 63 + 1024 else n < 2 ^ 63 - 512) := by
  constructor
  · intro hall
    exact ⟨fun hbits => natCast_roundsInto_int.mp (hall 31 hbits negative _ h),
      fun hbits => natCast_roundsInto_longlong.mp (hall 63 hbits negative _ h)⟩
  · rintro ⟨hint, hlonglong⟩ k hbits negative' m' h'
    -- the text denotes nothing else
    obtain ⟨rfl, rfl⟩ := h.unique h'
    rcases castBits_cases hbits with rfl | rfl
    · exact natCast_roundsInto_int.mpr (hint hbits)
    · exact natCast_roundsInto_longlong.mpr (hlonglong hbits)

/-- A number that rounds out of the range does not fit. -/
theorem not_castsFit (hplain : unmarked raw = true) (h : Denotes (cStr raw) negative m)
    (hm : ¬ RoundsInto 63 negative m) :
    ¬ CastsFit (putAttributes false (some .double) (.ofTexts [("valid_max", raw)])) := by
  rw [castsFit_putAttributes_iff]
  intro hall
  have hbits : castBits false (some .double) "valid_max" (unmarked raw) = some 63 := by
    rw [hplain]
    rfl
  exact hm (hall _ List.mem_cons_self 63 hbits negative m h)

/-- Half of one does not round to an integer. -/
theorem half_rounds : ¬ ∃ n : ℤ, Binary64.nearest (hexValue ['1'] [] (-1)) = n := by
  have hvalue : hexValue ['1'] [] (-1) = 1 / 2 := by
    have hdigits : digitsValue 16 (['1'] ++ []) = 1 := rfl
    rw [hexValue, hdigits]
    norm_num
  rw [hvalue]
  rintro ⟨n, hn⟩
  have hhalf : (0 : ℚ) ≤ 1 / 2 := by norm_num
  have hlt := (Binary64.nearest_lt_two_pow (k := 0) (by norm_num) hhalf).mpr (by norm_num)
  have hgt := (Binary64.nearest_le_two_pow (k := -2) (by norm_num) hhalf).not.mpr (by norm_num)
  rw [hn] at hlt hgt
  have hone : n < 1 := by exact_mod_cast hlt
  have hzero : 0 < n := by
    have : (0 : ℚ) < n := lt_trans (by norm_num) (not_le.mp hgt)
    exact_mod_cast this
  omega

/-- Neither driver can write these as what they are: an infinity, a NaN, a number with a binary
exponent, and an integer beyond `long long`. -/
theorem unmarked_no_integer :
    ¬ CastsFit (ncWriteAttributes false (some .double) (.ofTexts [("valid_max", "inf")])) ∧
      ¬ CastsFit (ncWriteAttributes false (some .double) (.ofTexts [("valid_max", "nan")])) ∧
      ¬ CastsFit (ncWriteAttributes false (some .double) (.ofTexts [("valid_max", "0x1p-1")])) ∧
      ¬ CastsFit (nczarrWriteAttributes false (some .double)
        (.ofTexts [("valid_max", "99999999999999999999")])) := by
  -- what each of the four texts denotes
  have hinf : Denotes (cStr "inf") false .infinite :=
    .intro (a := []) (t := ['i', 'n', 'f']) (b := []) (by simp) .none (.inf rfl) (by simp)
  have hnan : Denotes (cStr "nan") false .nan :=
    .intro (a := []) (t := ['n', 'a', 'n']) (b := []) (by simp) .none (.nan rfl) (by simp)
  have hhalf : Denotes (cStr "0x1p-1") false (.finite (hexValue ['1'] [] (-1))) := by
    have hsig : Significand isHexDigit ['1'] ['1'] [] :=
      .whole (List.forall_mem_singleton.mpr rfl) (List.cons_ne_nil _ _)
    have hexp : Exponent isP ['p', '-', '1'] (-1) :=
      .present (d := ['1']) rfl .minus (List.forall_mem_singleton.mpr rfl) (List.cons_ne_nil _ _)
    exact .intro (a := []) (b := []) (by simp) .none (.hexadecimal (.inl rfl) hsig hexp) (by simp)
  have hlarge : Denotes (cStr "99999999999999999999") false
      (.finite (99999999999999999999 : ℕ)) := by
    have hsig : Significand Char.isDigit (List.replicate 20 '9') (List.replicate 20 '9') [] :=
      .whole (fun c hc => by rw [List.eq_of_mem_replicate hc]; rfl) (List.cons_ne_nil _ _)
    have hvalue : decimalValue (List.replicate 20 '9') [] 0 = (99999999999999999999 : ℕ) := by
      have hdigits : digitsValue 10 (List.replicate 20 '9' ++ []) = 99999999999999999999 := rfl
      rw [decimalValue, hdigits]
      norm_num
    rw [← hvalue]
    exact .intro (a := []) (b := []) (by simp) .none (.decimal hsig .absent) (by simp)
  -- none of the four rounds into the range
  refine ⟨not_castsFit rfl hinf id, not_castsFit rfl hnan id,
    not_castsFit rfl hhalf fun h => half_rounds h.1, not_castsFit rfl hlarge fun h => ?_⟩
  rw [natCast_roundsInto_longlong] at h
  norm_num at h

end Amio
