import Amio.Drivers.Attributes
import Mathlib.Data.List.DropRight

/-!
# Reading attributes back

`open_write` writes the attributes of the file, and the first `write` of a variable those of the
variable; `get_text_attribute` and `get_numeric_attribute` read them, and the calls
`amio_get_var_attribute_text` and `amio_get_var_attribute_double` hand them to the host. Texts come
back as they are in the manifest but for NULs at the end, and numbers as the double that
`parse_attr_value` made of the text: what was stored as an integer is converted back, which is exact
(`Binary64.ofInt_of_round`). `declared_attributes_read` puts the whole way together, over any
sequence of writes.

A file is its attributes here. Whether the dimensions and the variable of a `write` can be defined
is up to the caller of the model, and whether netCDF takes an attribute up to `AttLibrary`.
-/

namespace Amio

open Strtod
open NetCdf (NcType dtypeToNcType)

/-! ### Stored attributes -/

/-- An attribute of a file: `NC_CHAR`, `NC_STRING`, an integer type, or one of floating point. A
string may be a null pointer. -/
inductive NcAtt
  | char (bytes : List UInt8)
  | strings (values : List (Option (List UInt8)))
  | integers (values : List ℤ)
  | reals (values : List Double)

/-- A `static_cast` to an integer type, for a number that is one. -/
def castInteger : Double → ℤ
  | .finite v => ⌊v⌋
  | .infinity _ | .nan => 0

/-- What netCDF does: the narrowing of a double to `float`, and whether it takes an attribute of the
file (no type) or of a variable. -/
structure AttLibrary where
  narrow : Double → Double
  allows : Option NcType → String → PutAtt → Bool

/-- What a call stores. -/
def AttLibrary.stored (lib : AttLibrary) : PutAtt → NcAtt
  | .text value => .char value.toUTF8.toList
  | .float number => .reals [lib.narrow number]
  | .double number => .reals [number]
  | .int number | .longlong number => .integers [castInteger number]

/-- The attributes of a file or of a variable. -/
abbrev AttTable := String → Option NcAtt

/-- The calls in their order, up to the first that fails: whether none did, and the attributes. -/
def AttLibrary.putAll (lib : AttLibrary) (type : Option NcType) :
    List (String × PutAtt) → AttTable → Bool × AttTable
  | [], table => (true, table)
  | (name, call) :: rest, table =>
    if lib.allows type name call then
      lib.putAll type rest (Function.update table name (some (lib.stored call)))
    else (false, table)

/-! ### The driver -/

/-- `DatasetAttributes::find`. -/
def DatasetAttributes.find (attributes : DatasetAttributes) (name : String) :
    Option VarAttributes :=
  (attributes.perVariable.find? fun v => v.1 = name).map (·.2)

/-- The driver and the attributes of its file. A variable that is there has a table. -/
structure AttDriver where
  isOpen : Bool := false
  isWriteMode : Bool := false
  attributes : DatasetAttributes := {}
  globals : AttTable := fun _ => none
  vars : String → Option AttTable := fun _ => none

/-- A `write`: `defined` says whether a variable that is not there can be defined. -/
structure AttWrite where
  name : String
  dtype : Dtype
  defined : Bool

namespace AttDriver

variable (lib : AttLibrary) (d : AttDriver)

/-- `open_write` of a new file, from where it parses the attributes; `none` when it throws. -/
def openWrite (m : AttrConf) : Option AttDriver :=
  if d.isOpen then none
  else
    match parseDatasetAttributes m with
    | .error _ => none
    | .ok attributes =>
      -- `Conventions` goes first, then the global attributes of the manifest
      let calls := ("Conventions", PutAtt.text attributes.conventions) ::
        ncWriteAttributes true none attributes.global
      let (ok, globals) := lib.putAll none calls fun _ => none
      if ok then
        some { isOpen := true, isWriteMode := true, attributes := attributes, globals := globals }
      else none

/-- `write`, as far as attributes go: whether it defines the variable or finds it, and the file that
it leaves. -/
def write (w : AttWrite) : Bool × AttDriver :=
  if d.isOpen = true ∧ d.isWriteMode = true then
    match d.vars w.name with
    | some _ => (true, d)
    | none =>
      if w.defined then
        let type := some (dtypeToNcType w.dtype)
        let calls := match d.attributes.find w.name with
          | some attrs => ncWriteAttributes false type attrs
          | none => []
        -- a variable whose attributes fail stays defined
        let (ok, table) := lib.putAll type calls fun _ => none
        (ok, { d with vars := Function.update d.vars w.name (some table) })
      else (false, d)
  else (false, d)

/-- Writes one after the other, whether they throw or not. -/
def writes (ws : List AttWrite) : AttDriver := ws.foldl (fun d w => (d.write lib w).2) d

/-- `close`. -/
def close : AttDriver := { d with isOpen := false, isWriteMode := false }

/-- `open_read`; the attributes of the manifest are not parsed. -/
def openRead : Option AttDriver :=
  if d.isOpen then none else some { d with isOpen := true, isWriteMode := false }

/-- `nc_inq_varid` and `nc_inq_att`; an empty name stands for the file. -/
def inqAtt (varName attrName : String) : Option NcAtt :=
  if varName = "" then d.globals attrName else (d.vars varName).bind fun table => table attrName

/-- Only NULs at the end are dropped. -/
def trimNuls (bytes : List UInt8) : List UInt8 := bytes.rdropWhile (· = 0)

/-- `get_text_attribute`. -/
def getTextAttribute (varName attrName : String) : Option (List UInt8) :=
  if d.isOpen = true ∧ d.isWriteMode = false then
    match d.inqAtt varName attrName with
    | some (.char bytes) => if bytes = [] then none else some (trimNuls bytes)
    -- of several strings the first; a null pointer is the empty string
    | some (.strings values) => values.head?.map fun value => value.getD []
    | _ => none
  else none

/-- `get_numeric_attribute`. -/
def getNumericAttribute (varName attrName : String) : Option Double :=
  if d.isOpen = true ∧ d.isWriteMode = false then
    match d.inqAtt varName attrName with
    | some (.integers values) => values.head?.map Binary64.ofInt
    | some (.reals values) => values.head?
    | _ => none
  else none

end AttDriver

/-! ### The calls of the host -/

/-- What `amio_get_var_attribute_text` leaves: `*out_len`, which it has set to zero, and what is
written to the beginning of `out_buf`. -/
structure TextAnswer where
  status : AmioErr
  outLen : Nat := 0
  written : List UInt8 := []
  deriving DecidableEq

/-- A dataset with its driver, which a failed open may not have left. -/
structure AttRecord where
  readMode : Bool
  driver : Option AttDriver

namespace AttRecord

variable (x : AttRecord)

/-- `get_var_attribute_text`, with the capacity of `out_buf` unless that is null. -/
def getVarAttributeText (varName : Option String) (attrName : String) (outBuf : Option Nat) :
    TextAnswer :=
  -- a buffer of no byte cannot take the terminator
  if attrName = "" ∨ outBuf = some 0 ∨ x.readMode = false then { status := .invalidInput }
  else
    match x.driver with
    | none => { status := .backendFailure }
    | some d =>
      match d.getTextAttribute (varName.getD "") attrName with
      | none => { status := .backendFailure }
      | some value =>
        { status := .ok
          outLen := value.length
          -- the text is cut to the buffer, the length that is reported is not
          written := match outBuf with
            | some cap => value.take (min value.length (cap - 1)) ++ [0]
            | none => [] }

/-- `get_var_attribute_double`: the status and `*out_value`. -/
def getVarAttributeDouble (varName : Option String) (attrName : String) : AmioErr × Double :=
  -- on an error `out_value` is not written, for which the zero stands
  if attrName = "" ∨ x.readMode = false then (.invalidInput, .finite 0)
  else
    match x.driver with
    | none => (.backendFailure, .finite 0)
    | some d =>
      match d.getNumericAttribute (varName.getD "") attrName with
      | none => (.backendFailure, .finite 0)
      | some value => (.ok, value)

end AttRecord

/-! ### What a manifest declares -/

section Declared

variable {m : AttrConf} {path : String} {value : String → String → AttrValue}
  {keys : List String} {attrs : VarAttributes}

/-- No attribute is there twice. -/
def VarAttributes.Distinct (attrs : VarAttributes) : Prop := (attrs.items.map (·.1)).Nodup

/-- The names after an item is set. -/
theorem VarAttributes.mem_map_setItem {key k : String} {v : AttrValue}
    {items : List (String × AttrValue)} :
    k ∈ (setItem key v items).map (·.1) ↔ k = key ∨ k ∈ items.map (·.1) := by
  induction items with
  | nil => simp [setItem]
  | cons head rest ih =>
    unfold setItem
    split
    · next hkey => simp [hkey]
    · rw [List.map_cons, List.mem_cons, ih, List.map_cons, List.mem_cons]
      tauto

/-- A name that is set is there once. -/
theorem VarAttributes.Distinct.set (h : attrs.Distinct) (key : String) (v : AttrValue) :
    (attrs.set key v).Distinct := by
  obtain ⟨items⟩ := attrs
  simp only [Distinct, VarAttributes.set] at h ⊢
  induction items with
  | nil => simp [setItem]
  | cons head rest ih =>
    obtain ⟨hhead, hrest⟩ := List.nodup_cons.mp h
    unfold setItem
    split
    · exact h
    · next hkey =>
      refine List.nodup_cons.mpr ⟨fun hmem => ?_, ih hrest⟩
      -- the name at the head is neither the new one nor further down
      rcases mem_map_setItem.mp hmem with heq | hmem
      · exact hkey heq
      · exact hhead hmem

/-- `set` keeps what has another key. -/
theorem VarAttributes.mem_set_of_mem {key : String} {v : AttrValue} {kv : String × AttrValue}
    (h : kv ∈ attrs.items) (hne : kv.1 ≠ key) : kv ∈ (attrs.set key v).items := by
  obtain ⟨items⟩ := attrs
  simp only [VarAttributes.set] at h ⊢
  induction items with
  | nil => cases h
  | cons head rest ih =>
    unfold setItem
    split
    -- the item that is replaced is another one
    · next hkey =>
      rcases List.mem_cons.mp h with rfl | h
      · exact absurd hkey hne
      · exact List.mem_cons_of_mem _ h
    · rcases List.mem_cons.mp h with rfl | h
      · exact List.mem_cons_self
      · exact List.mem_cons_of_mem _ (ih h)

/-- An item that is set is there. -/
theorem VarAttributes.mem_set_self (attrs : VarAttributes) (key : String) (v : AttrValue) :
    (key, v) ∈ (attrs.set key v).items := by
  obtain ⟨items⟩ := attrs
  simp only [VarAttributes.set]
  induction items with
  | nil => simp [setItem]
  | cons head rest ih =>
    unfold setItem
    split
    · next hkey => simp [hkey]
    · exact List.mem_cons_of_mem _ ih

/-- **Every key that has a text is there once**, with the value of its text. -/
theorem readKnown_complete (h : readKnown m path value keys = .ok attrs) :
    attrs.Distinct ∧ ∀ key ∈ keys, ∀ raw, m.tryString (path ++ "." ++ key) = .ok (some raw) →
      (key, value key raw) ∈ attrs.items := by
  have hempty : ({} : VarAttributes).Distinct := List.nodup_nil
  have hread : VarAttributes.ReadFrom m path value {} := fun kv hkv => by cases hkv
  -- what was there keeps its value, since that is the one of its text
  suffices hall : attrs.Distinct ∧ ∀ key raw, m.tryString (path ++ "." ++ key) = .ok (some raw) →
      (key ∈ keys ∨ ∃ v, (key, v) ∈ ({} : VarAttributes).items) →
      (key, value key raw) ∈ attrs.items from
    ⟨hall.1, fun key hkey raw hraw => hall.2 key raw hraw (.inl hkey)⟩
  unfold readKnown at h
  generalize ({} : VarAttributes) = init at h hempty hread ⊢
  induction keys generalizing init with
  | nil =>
    cases h
    refine ⟨hempty, fun key raw hraw hkey => ?_⟩
    obtain ⟨v, hv⟩ := hkey.resolve_left (List.not_mem_nil)
    obtain ⟨raw', hraw', hvalue⟩ := hread _ hv
    obtain rfl : raw = raw' := by simpa using hraw.symm.trans hraw'
    exact hvalue ▸ hv
  | cons k keys ih =>
    rw [List.foldlM_cons] at h
    cases hk : m.tryString (path ++ "." ++ k) with
    | error e =>
      rw [hk] at h
      cases h
    | ok found =>
      rw [hk] at h
      cases found with
      | none =>
        obtain ⟨hdistinct, hmem⟩ := ih _ h hempty hread
        refine ⟨hdistinct, fun key raw hraw hkey => hmem key raw hraw ?_⟩
        refine hkey.imp_left fun hkey => (List.mem_cons.mp hkey).resolve_left ?_
        rintro rfl
        rw [hk] at hraw
        cases hraw
      | some found =>
        obtain ⟨hdistinct, hmem⟩ := ih _ h (hempty.set k _) (hread.set hk)
        refine ⟨hdistinct, fun key raw hraw hkey => hmem key raw hraw ?_⟩
        by_cases heq : key = k
        · subst heq
          exact .inr ⟨_, VarAttributes.mem_set_self init key _⟩
        · refine hkey.imp (fun hkey => (List.mem_cons.mp hkey).resolve_left heq) ?_
          rintro ⟨v, hv⟩
          exact ⟨v, VarAttributes.mem_set_of_mem hv heq⟩

/-- The attributes of every variable are what was read at its place. -/
def DatasetAttributes.VarsRead (m : AttrConf) (out : DatasetAttributes) : Prop :=
  ∀ v ∈ out.perVariable,
    readKnown m ("variables." ++ v.1 ++ ".attributes") varValue knownVarKeys = .ok v.2

/-- Reading the variables leaves the global attributes. -/
theorem readVariables_spec {names : List String} {out : DatasetAttributes} (h : out.VarsRead m) :
    (readVariables m names out).global = out.global ∧
      (readVariables m names out).VarsRead m := by
  fun_induction readVariables m names out with
  | case1 => exact ⟨rfl, h⟩
  | case2 => exact ⟨rfl, h⟩
  | case3 out name rest path hhas attrs hread ih =>
    refine ih fun v hv => ?_
    simp only at hv
    split at hv
    · exact h v hv
    · rcases List.mem_append.mp hv with hv | hv
      · exact h v hv
      · rw [List.mem_singleton.mp hv]
        exact hread
  | case4 out name rest path hhas ih => exact ih h

/-- What the attributes of a dataset were read from. -/
theorem parseDatasetAttributes_spec {out : DatasetAttributes}
    (h : parseDatasetAttributes m = .ok out) :
    (m.has "global_attributes" = true → readKnown m "global_attributes"
        (fun _ raw => parseAttrValue raw) knownGlobalKeys = .ok out.global) ∧
      (m.has "global_attributes" = false → out.global = {}) ∧ out.VarsRead m := by
  -- `Conventions` is set last, and touches nothing else
  have hfinish : ∀ {global : VarAttributes} {base : DatasetAttributes},
      base.global = global ∧ base.VarsRead m →
      (do
        let conventions ←
          if m.has "conventions" then m.getStringOr "conventions" kDefaultCFConventions
          else pure (if base.usesUgrid then kDefaultCFUGRIDConventions else kDefaultCFConventions)
        pure { base with conventions := conventions }) = Except.ok out →
      out.global = global ∧ out.VarsRead m := by
    intro global base hbase h
    split at h
    · obtain ⟨conventions, -, h⟩ := except_bind_eq_ok.mp h
      exact Except.ok.inj h ▸ hbase
    · exact Except.ok.inj h ▸ hbase
  have hinit : ∀ global, DatasetAttributes.VarsRead m { global := global } :=
    fun _ v hv => by cases hv
  have hread : ∃ global, (if m.has "global_attributes" then readKnown m "global_attributes"
      (fun _ raw => parseAttrValue raw) knownGlobalKeys else .ok {}) = .ok global ∧
      out.global = global ∧ out.VarsRead m := by
    unfold parseDatasetAttributes at h
    -- no list of variables, or one after the other
    cases hnames : (if m.has "variable_names" = true then m.getStringList "variable_names"
        else Except.ok []) with
    | error e =>
      simp only [hnames] at h
      split at h
      · next hhas =>
        obtain ⟨global, hglobal, h⟩ := except_bind_eq_ok.mp h
        exact ⟨global, (if_pos hhas).trans hglobal, hfinish ⟨rfl, hinit global⟩ h⟩
      · next hhas => exact ⟨{}, if_neg hhas, hfinish ⟨rfl, hinit {}⟩ h⟩
    | ok names =>
      simp only [hnames] at h
      split at h
      · next hhas =>
        obtain ⟨global, hglobal, h⟩ := except_bind_eq_ok.mp h
        exact ⟨global, (if_pos hhas).trans hglobal, hfinish (readVariables_spec (hinit global)) h⟩
      · next hhas => exact ⟨{}, if_neg hhas, hfinish (readVariables_spec (hinit {})) h⟩
  obtain ⟨global, hglobal, hout, hvars⟩ := hread
  refine ⟨fun hhas => ?_, fun hno => ?_, hvars⟩
  · rw [if_pos hhas] at hglobal
    exact hout ▸ hglobal
  · rw [if_neg (by simp [hno])] at hglobal
    exact hout.trans (Except.ok.inj hglobal).symm

end Declared

/-! ### What a file holds -/

section Stored

variable {lib : AttLibrary} {type : Option NcType} {calls : List (String × PutAtt)}
  {table table' : AttTable}

/-- One attribute after the other. -/
theorem AttLibrary.putAll_cons {c : String × PutAtt}
    (h : lib.putAll type (c :: calls) table = (true, table')) :
    lib.putAll type calls (Function.update table c.1 (some (lib.stored c.2))) = (true, table') := by
  unfold putAll at h
  split at h
  · exact h
  · cases h

/-- The attributes after calls none of which failed. -/
theorem AttLibrary.putAll_spec (h : lib.putAll type calls table = (true, table')) :
    (∀ name, name ∉ calls.map (·.1) → table' name = table name) ∧
      ((calls.map (·.1)).Nodup → ∀ c ∈ calls, table' c.1 = some (lib.stored c.2)) := by
  induction calls generalizing table with
  | nil =>
    obtain rfl := (Prod.mk.inj h).2
    exact ⟨fun _ _ => rfl, fun _ _ hc => by cases hc⟩
  | cons c calls ih =>
    obtain ⟨hother, hcalls⟩ := ih (putAll_cons h)
    refine ⟨fun name hname => ?_, fun hnodup c' hc' => ?_⟩
    · rw [List.map_cons, List.mem_cons, not_or] at hname
      rw [hother name hname.2, Function.update_of_ne hname.1]
    · obtain ⟨hfirst, hnodup⟩ := List.nodup_cons.mp hnodup
      rcases List.mem_cons.mp hc' with rfl | hc'
      -- no later call has the name of the first
      · rw [hother _ hfirst, Function.update_self]
      · exact hcalls hnodup c' hc'

/-- An attribute keeps its name. -/
theorem map_fst_putAttributes (isGlobal : Bool) (attrs : VarAttributes) :
    (putAttributes isGlobal type attrs).map (·.1) = attrs.items.map (·.1) := by
  rw [putAttributes, List.map_map]
  rfl

end Stored

namespace AttDriver

variable {lib : AttLibrary} {d d' : AttDriver} {m : AttrConf}

/-- A `write` changes no attribute that is there. -/
structure Keeps (d d' : AttDriver) : Prop where
  isOpen : d'.isOpen = d.isOpen
  isWriteMode : d'.isWriteMode = d.isWriteMode
  attributes : d'.attributes = d.attributes
  globals : d'.globals = d.globals
  vars : ∀ name table, d.vars name = some table → d'.vars name = some table

theorem Keeps.refl (d : AttDriver) : Keeps d d := ⟨rfl, rfl, rfl, rfl, fun _ _ h => h⟩

theorem Keeps.trans {d'' : AttDriver} (h : Keeps d d') (h' : Keeps d' d'') : Keeps d d'' :=
  ⟨h'.isOpen.trans h.isOpen, h'.isWriteMode.trans h.isWriteMode, h'.attributes.trans h.attributes,
    h'.globals.trans h.globals, fun name table ht => h'.vars name table (h.vars name table ht)⟩

/-- A write keeps what was put before. -/
theorem write_keeps (lib : AttLibrary) (d : AttDriver) (w : AttWrite) :
    Keeps d (d.write lib w).2 := by
  unfold write
  split
  · split
    · exact .refl d
    · next hnone =>
      split
      · refine ⟨rfl, rfl, rfl, rfl, fun name table ht => ?_⟩
        -- a variable that is defined now was not there before
        have hne : name ≠ w.name := by
          rintro rfl
          rw [hnone] at ht
          cases ht
        rw [← ht]
        exact Function.update_of_ne hne _ _
      · exact .refl d
  · exact .refl d

theorem writes_keeps (lib : AttLibrary) (d : AttDriver) (ws : List AttWrite) :
    Keeps d (d.writes lib ws) := by
  induction ws generalizing d with
  | nil => exact .refl d
  | cons w ws ih => exact (write_keeps lib d w).trans (ih _)

/-- What `open_write` leaves. -/
theorem openWrite_spec {d₀ : AttDriver} (h : d₀.openWrite lib m = some d) :
    d.isOpen = true ∧ d.isWriteMode = true ∧ (∀ name, d.vars name = none) ∧
      parseDatasetAttributes m = .ok d.attributes ∧
      lib.putAll none (("Conventions", .text d.attributes.conventions) ::
        putAttributes true none d.attributes.global) (fun _ => none) = (true, d.globals) := by
  unfold openWrite at h
  split at h
  · cases h
  · split at h
    · cases h
    · next attributes hparse =>
      dsimp only at h
      split at h
      · next hok =>
        obtain rfl := Option.some.inj h
        exact ⟨rfl, rfl, fun _ => rfl, hparse, Prod.ext hok rfl⟩
      · cases h

/-- The attributes of a variable that a `write` has defined. -/
theorem write_defines {w : AttWrite} (hnew : d.vars w.name = none)
    (hok : (d.write lib w).1 = true) {attrs : VarAttributes}
    (hattrs : d.attributes.find w.name = some attrs) :
    ∃ table, (d.write lib w).2.vars w.name = some table ∧
      lib.putAll (some (dtypeToNcType w.dtype))
        (putAttributes false (some (dtypeToNcType w.dtype)) attrs) (fun _ => none) =
          (true, table) := by
  unfold write at hok ⊢
  simp only [hnew, hattrs, ncWriteAttributes] at hok ⊢
  split at hok
  · next hopen =>
    split at hok
    · next hdefined =>
      rw [if_pos hopen, if_pos hdefined]
      exact ⟨_, Function.update_self .., Prod.ext hok rfl⟩
    · cases hok
  · cases hok

/-- A declared attribute of the variable is in the file, whatever is written afterwards. -/
theorem stored_of_defines (hvars : d.attributes.VarsRead m) (us vs : List AttWrite)
    {w : AttWrite} (hnew : (d.writes lib us).vars w.name = none)
    (hdefines : ((d.writes lib us).write lib w).1 = true) {attrs : VarAttributes}
    (hattrs : d.attributes.find w.name = some attrs) {key raw : String} (hkey : key ∈ knownVarKeys)
    (hraw : m.tryString ("variables." ++ w.name ++ ".attributes" ++ "." ++ key) =
      .ok (some raw)) :
    ∃ table, (d.writes lib (us ++ w :: vs)).vars w.name = some table ∧
      table key = some (lib.stored
        (putAttribute false (some (dtypeToNcType w.dtype)) key (varValue key raw))) := by
  have hus := writes_keeps lib d us
  -- the writes before, the one that defines the variable, and those after it
  have hwrites : d.writes lib (us ++ w :: vs) =
      (((d.writes lib us).write lib w).2).writes lib vs := by
    rw [writes, List.foldl_append]
    rfl
  obtain ⟨v, hv, rfl⟩ := Option.map_eq_some_iff.mp hattrs
  have hread := hvars v (List.mem_of_find?_eq_some hv)
  have hvname : v.1 = w.name := by simpa using List.find?_some hv
  rw [hvname] at hread
  obtain ⟨hdistinct, hmem⟩ := readKnown_complete hread
  -- the definition puts all attributes of the variable
  obtain ⟨table, htable, hputs⟩ := write_defines hnew hdefines (hus.attributes ▸ hattrs)
  refine ⟨table, ?_, (AttLibrary.putAll_spec hputs).2
    (by rw [map_fst_putAttributes]; exact hdistinct) _
      (List.mem_map_of_mem (hmem key hkey raw hraw))⟩
  -- no later write takes one of them away
  rw [hwrites]
  exact (writes_keeps lib _ vs).vars _ _ htable

end AttDriver

/-! ### Reading -/

/-- The text that a call leaves to be read. -/
def PutAtt.textRead : PutAtt → Option (List UInt8)
  | .text value =>
    if value.toUTF8.toList = [] then none else some (AttDriver.trimNuls value.toUTF8.toList)
  | _ => none

/-- The number that a call leaves to be read. -/
def PutAtt.numberRead (narrow : Double → Double) : PutAtt → Option Double
  | .text _ => none
  | .float number => some (narrow number)
  | .double number | .int number | .longlong number => some number

/-- A call whose cast, if it makes one, is given an integer that converts back. -/
def PutAtt.Exact (call : PutAtt) : Prop :=
  ∀ k x, call.cast = some (k, x) → Binary64.ofInt (castInteger x) = x

section Reading

variable {lib : AttLibrary} {d : AttDriver} {varName key : String} {call : PutAtt}

/-- A text that was put is read. -/
theorem getTextAttribute_stored (hmode : d.isOpen = true ∧ d.isWriteMode = false)
    (h : d.inqAtt varName key = some (lib.stored call)) :
    d.getTextAttribute varName key = call.textRead := by
  rw [AttDriver.getTextAttribute, if_pos hmode, h]
  cases call <;> rfl

theorem getNumericAttribute_stored (hmode : d.isOpen = true ∧ d.isWriteMode = false)
    (hexact : call.Exact) (h : d.inqAtt varName key = some (lib.stored call)) :
    d.getNumericAttribute varName key = call.numberRead lib.narrow := by
  rw [AttDriver.getNumericAttribute, if_pos hmode, h]
  cases call with
  | text | float | double => rfl
  | int number => exact congrArg some (hexact _ _ rfl)
  | longlong number => exact congrArg some (hexact _ _ rfl)

/-- **A number that was cast to an integer type comes back.** -/
theorem exact_of_fits {isGlobal : Bool} {type : Option NcType} {name : String} {val : AttrValue}
    {raw : String} (hval : val = parseAttrValue raw ∨ val = { text := raw })
    (hfits : ∀ k x, (putAttribute isGlobal type name val).cast = some (k, x) → x.Fits k) :
    (putAttribute isGlobal type name val).Exact := by
  intro k x hcast
  have hx := hfits k x hcast
  rw [cast_putAttribute] at hcast
  have hzero : Binary64.ofInt (castInteger (.finite 0)) = .finite 0 := by
    have hround : Binary64.round false 0 = .finite 0 := by
      simp [Binary64.round, Binary64.nearest_zero]
    have hfloor : castInteger (.finite 0) = 0 := by simp [castInteger]
    rw [hfloor]
    exact Binary64.ofInt_of_round le_rfl hround (by simp)
  -- the value was parsed from the text, or is the text
  rcases hval with rfl | rfl
  · have hparsed := parseAttrValue_cases raw
    generalize parseAttrValue raw = val at hparsed hcast
    cases hparsed with
    | text => cases hcast
    -- an empty number denotes zero
    | blank =>
      obtain ⟨j, -, heq⟩ := Option.map_eq_some_iff.mp hcast
      obtain ⟨-, rfl⟩ := Prod.mk.inj heq
      exact hzero
    -- a number that fits is finite, and the cast of an integer is exact
    | @number negative m hdenotes =>
      obtain ⟨j, -, heq⟩ := Option.map_eq_some_iff.mp hcast
      obtain ⟨-, rfl⟩ := Prod.mk.inj heq
      have hnonneg := hdenotes.nonneg
      cases m with
      | infinite | nan => exact hx.elim
      | finite q =>
        obtain ⟨v, hv⟩ : ∃ v, Magnitude.round negative (.finite q) = .finite v := by
          generalize Magnitude.round negative (.finite q) = y at hx
          cases y with
          | finite v => exact ⟨v, rfl⟩
          | infinity | nan => exact hx.elim
        rw [hv] at hx ⊢
        obtain ⟨n, hn, -⟩ := hx
        have hfloor : castInteger (.finite v) = n := by simp [castInteger, hn]
        rw [hfloor]
        exact Binary64.ofInt_of_round hnonneg hv hn
  · cases hcast

end Reading

/-! ### The whole way -/

/-- What the host reads of an attribute that `call` has put: a text in two steps, its length and
then as much of it as the buffer takes with a NUL behind it; or a number. The other of the two calls
says that there is no attribute. -/
structure ReadsBack (lib : AttLibrary) (x : AttRecord) (varName : Option String) (key : String)
    (call : PutAtt) : Prop where
  text : ∀ value, call.textRead = some value →
    x.getVarAttributeText varName key none = { status := .ok, outLen := value.length } ∧
    ∀ cap, 0 < cap → x.getVarAttributeText varName key (some cap) =
      { status := .ok, outLen := value.length, written := value.take (cap - 1) ++ [0] }
  noText : call.textRead = none → ∀ outBuf, outBuf ≠ some 0 →
    x.getVarAttributeText varName key outBuf = { status := .backendFailure }
  number : x.getVarAttributeDouble varName key =
    ((call.numberRead lib.narrow).map fun value => (.ok, value)).getD (.backendFailure, .finite 0)

section RoundTrip

variable {lib : AttLibrary} {m : AttrConf} {d₀ d d₂ : AttDriver} {x : AttRecord}

/-- The host reads back what was put. -/
theorem readsBack_of_stored {varName : Option String} {key : String} {call : PutAtt}
    (hx : x.readMode = true) (hdriver : x.driver = some d) (hkey : key ≠ "")
    (hmode : d.isOpen = true ∧ d.isWriteMode = false) (hexact : call.Exact)
    (h : d.inqAtt (varName.getD "") key = some (lib.stored call)) :
    ReadsBack lib x varName key call := by
  have htext := getTextAttribute_stored hmode h
  have hnumber := getNumericAttribute_stored hmode hexact h
  refine ⟨fun value hvalue => ⟨?_, fun cap hcap => ?_⟩, fun hnone outBuf hbuf => ?_, ?_⟩
  · simp [AttRecord.getVarAttributeText, hkey, hx, hdriver, htext, hvalue]
  -- what fits into the buffer, less the terminator
  · have htake : value.take (min value.length (cap - 1)) = value.take (cap - 1) := by
      rw [Nat.min_comm, ← List.take_eq_take_min]
    have hne : ¬ cap = 0 := by omega
    simp [AttRecord.getVarAttributeText, hkey, hx, hdriver, htext, hvalue, hne, htake]
  · simp [AttRecord.getVarAttributeText, hkey, hx, hdriver, htext, hnone, hbuf]
  · simp only [AttRecord.getVarAttributeDouble, hkey, hx, hdriver, hnumber]
    cases call.numberRead lib.narrow <;> rfl

/-- **Declared attributes are read back.** After `open_write`, any sequence of writes, among them
the one that defines the variable `w.name`, `close` and `open_read`: every attribute that the
manifest declares for the variable, and every one that it declares for the file, is there for the
host, unless its number is cast to an integer type that it is not an integer of. -/
theorem declared_attributes_read (hopen : d₀.openWrite lib m = some d) (us vs : List AttWrite)
    {w : AttWrite} (hnew : (d.writes lib us).vars w.name = none)
    (hdefines : ((d.writes lib us).write lib w).1 = true) (hname : w.name ≠ "")
    (hreopen : (d.writes lib (us ++ w :: vs)).close.openRead = some d₂) (hx : x.readMode = true)
    (hdriver : x.driver = some d₂) :
    (∀ key ∈ knownVarKeys, ∀ raw,
      m.tryString ("variables." ++ w.name ++ ".attributes" ++ "." ++ key) = .ok (some raw) →
      d.attributes.find w.name ≠ none →
      (∀ k y, (putAttribute false (some (dtypeToNcType w.dtype)) key (varValue key raw)).cast =
        some (k, y) → y.Fits k) →
      ReadsBack lib x (some w.name) key
        (putAttribute false (some (dtypeToNcType w.dtype)) key (varValue key raw))) ∧
    (∀ key ∈ knownGlobalKeys, ∀ raw, m.has "global_attributes" = true →
      m.tryString ("global_attributes" ++ "." ++ key) = .ok (some raw) →
      (∀ k y, (putAttribute true none key (parseAttrValue raw)).cast = some (k, y) → y.Fits k) →
      ReadsBack lib x none key (putAttribute true none key (parseAttrValue raw))) ∧
    ((m.has "global_attributes" = true →
        m.tryString ("global_attributes" ++ "." ++ "Conventions") = .ok none) →
      ReadsBack lib x none "Conventions" (.text d.attributes.conventions)) := by
  obtain ⟨-, -, -, hparse, hput⟩ := AttDriver.openWrite_spec hopen
  obtain ⟨hglobal, hnoGlobal, hvars⟩ := parseDatasetAttributes_spec hparse
  have hall := AttDriver.writes_keeps lib d (us ++ w :: vs)
  obtain rfl : _ = d₂ := Option.some.inj hreopen
  have hputs := (AttLibrary.putAll_spec (AttLibrary.putAll_cons hput)).2
  rw [map_fst_putAttributes] at hputs
  refine ⟨fun key hkey raw hraw hdeclared hfits => ?_, fun key hkey raw hhas hraw hfits => ?_,
    fun hnone => ?_⟩
  -- the attributes of the variable
  · obtain ⟨attrs, hattrs⟩ := Option.ne_none_iff_exists'.mp hdeclared
    have hvalue : varValue key raw = parseAttrValue raw ∨ varValue key raw = { text := raw } := by
      unfold varValue
      split
      · exact .inr rfl
      · exact .inl rfl
    refine readsBack_of_stored hx hdriver (ne_of_mem_of_not_mem hkey (by decide)) ⟨rfl, rfl⟩
      (exact_of_fits hvalue hfits) ?_
    rw [AttDriver.inqAtt, Option.getD_some, if_neg hname]
    obtain ⟨table, htable, hstored⟩ :=
      AttDriver.stored_of_defines hvars us vs hnew hdefines hattrs hkey hraw
    show (((d.writes lib (us ++ w :: vs)).vars w.name).bind _) = _
    rw [htable]
    exact hstored
  -- those of the file
  · obtain ⟨hdistinct, hmem⟩ := readKnown_complete (hglobal hhas)
    refine readsBack_of_stored hx hdriver (ne_of_mem_of_not_mem hkey (by decide)) ⟨rfl, rfl⟩
      (exact_of_fits (.inl rfl) hfits) ?_
    show (d.writes lib (us ++ w :: vs)).globals key = _
    rw [hall.globals]
    exact hputs hdistinct _ (List.mem_map_of_mem (hmem key hkey raw hraw))
  -- the conventions, which come first
  · refine readsBack_of_stored hx hdriver (by decide) ⟨rfl, rfl⟩
      (fun k y hcast => by cases hcast) ?_
    show (d.writes lib (us ++ w :: vs)).globals "Conventions" = _
    rw [hall.globals, (AttLibrary.putAll_spec (AttLibrary.putAll_cons hput)).1 "Conventions" ?_,
      Function.update_self]
    rw [map_fst_putAttributes]
    intro hmem
    obtain ⟨kv, hkv, hname⟩ := List.mem_map.mp hmem
    cases hhas : m.has "global_attributes" with
    | false =>
      rw [hnoGlobal hhas] at hkv
      cases hkv
    | true =>
      obtain ⟨raw, hraw, -⟩ := readKnown_readFrom (hglobal hhas) kv hkv
      rw [hname, hnone hhas] at hraw
      cases hraw

end RoundTrip

/-- A library that takes everything. -/
def anyAttribute : AttLibrary := ⟨id, fun _ _ _ => true⟩

/-- A manifest with a unit and a bound for the variable `T`. -/
def boundedConf : AttrConf where
  has key := key = "variable_names" ∨ key = "variables.T.attributes"
  getInt _ := .ok 0
  getString _ := .ok ""
  getIntList _ := .ok []
  getStringList _ := .ok ["T"]
  getStringOr _ default := .ok default
  tryString key := .ok
    (if key = "variables.T.attributes.units" then some "K"
    else if key = "variables.T.attributes.valid_max" then some "42"
    else none)

theorem denotes_fortyTwo : Denotes (cStr "42") false (.finite (42 : ℕ)) := by
  have hsig : Significand Char.isDigit ['4', '2'] ['4', '2'] [] :=
    .whole (by simp) (List.cons_ne_nil _ _)
  have hvalue : decimalValue ['4', '2'] [] 0 = (42 : ℕ) := by
    have hdigits : digitsValue 10 (['4', '2'] ++ []) = 42 := rfl
    rw [decimalValue, hdigits]
    norm_num
  rw [← hvalue]
  exact .intro (a := []) (b := []) (by simp) .none (.decimal hsig .absent) (by simp)

/-- The bound is written as an integer. -/
theorem putAttribute_fortyTwo :
    putAttribute false (some .double) "valid_max" (varValue "valid_max" "42") =
      .longlong (.finite 42) := by
  have hround : Magnitude.round false (.finite ((42 : ℕ) : ℚ)) = .finite 42 := by
    have hexact := Binary64.nearest_mul_zpow (k := 42) (e := 0) (by norm_num) (by norm_num)
    rw [zpow_zero, mul_one] at hexact
    show Binary64.round false ((42 : ℕ) : ℚ) = _
    have hlt : ((42 : ℕ) : ℚ) < 2 ^ 1024 :=
      lt_of_lt_of_le (b := 2 ^ 6) (by norm_num) (pow_le_pow_right₀ one_le_two (by norm_num))
    rw [Binary64.round, hexact, if_pos hlt, if_neg Bool.false_ne_true]
    norm_num
  have hvalue : varValue "valid_max" "42" =
      { text := "42", number := .finite 42, isNumeric := true, isInteger := true } := by
    rw [varValue, if_neg (by decide), parseAttrValue_of_denotes denotes_fortyTwo, hround]
    rfl
  rw [hvalue]
  rfl

/-- The variable `T` is written twice, behind another one. -/
def boundedWrites : List AttWrite := [⟨"U", .f32, true⟩, ⟨"T", .f64, true⟩, ⟨"T", .f64, true⟩]

theorem declared_attributes_read_of_bounded :
    ∃ d d₂, ({} : AttDriver).openWrite anyAttribute boundedConf = some d ∧
      (d.writes anyAttribute boundedWrites).close.openRead = some d₂ ∧
      AttRecord.getVarAttributeText ⟨true, some d₂⟩ (some "T") "units" none =
        { status := .ok, outLen := 1 } ∧
      AttRecord.getVarAttributeText ⟨true, some d₂⟩ (some "T") "units" (some 2) =
        { status := .ok, outLen := 1, written := [75, 0] } ∧
      AttRecord.getVarAttributeDouble ⟨true, some d₂⟩ (some "T") "valid_max" =
        (.ok, .finite 42) := by
  let us : List AttWrite := [⟨"U", .f32, true⟩]
  let w : AttWrite := ⟨"T", .f64, true⟩
  have hrun : (({} : AttDriver).openWrite anyAttribute boundedConf).map (fun d =>
      ((d.attributes.find "T").isSome, ((d.writes anyAttribute us).write anyAttribute w).1,
        ((d.writes anyAttribute us).vars "T").isNone)) = some (true, true, true) := by
    decide +kernel
  obtain ⟨d, hopen, hobs⟩ := Option.map_eq_some_iff.mp hrun
  simp only [Prod.mk.injEq, Option.isNone_iff_eq_none] at hobs
  obtain ⟨hfind, hdefines, hnew⟩ := hobs
  obtain ⟨d₂, hreopen⟩ : ∃ d₂, (d.writes anyAttribute (us ++ w :: [w])).close.openRead =
    some d₂ := ⟨_, rfl⟩
  have hread : (⟨true, some d₂⟩ : AttRecord).readMode = true := rfl
  obtain ⟨hvars, -, -⟩ :=
    declared_attributes_read hopen us [w] hnew hdefines (by decide) hreopen hread rfl
  have hdeclared : d.attributes.find "T" ≠ none := Option.isSome_iff_ne_none.mp hfind
  -- the unit is a text, and the bound an integer of `long long`
  have hunits := hvars "units" (by decide) "K" rfl hdeclared fun k y hcast => by cases hcast
  have hinteger : DenotesInteger false (some .double) "valid_max" "42" :=
    (denotesInteger_natCast denotes_fortyTwo).mpr ⟨fun _ => by decide, fun _ => by decide⟩
  have hbound : ReadsBack anyAttribute ⟨true, some d₂⟩ (some "T") "valid_max"
      (putAttribute false (some .double) "valid_max" (varValue "valid_max" "42")) :=
    hvars "valid_max" (by decide) "42" rfl hdeclared
      ((cast_fits_iff false (some .double) "valid_max" "42").mpr hinteger)
  rw [putAttribute_fortyTwo] at hbound
  obtain ⟨hlength, htext⟩ := hunits.text [75] (by decide +kernel)
  exact ⟨d, d₂, hopen, hreopen, hlength, htext 2 (by decide), hbound.number⟩

end Amio
