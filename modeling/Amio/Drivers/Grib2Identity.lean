import Amio.Drivers.Grib2
import Amio.Lib.Labelled

/-!
# Field identities of GRIB2 records

The writer never computes a field's name; only the reader does, from the template it finds. This
file proves that the two sides agree: the key under which a record is filed is the name of the
settings it was written with (`recordKey_of_settings`), and two settings have one name only if they
have the same template and agree on every descriptor the template carries (`identityName_eq_iff`).
The second half rests on `Labelled.Format.render_injective`: every segment of a name is a label
without digits or minus sign, followed by a decimal numeral.
-/

namespace Amio.Grib2

open Labelled

namespace Grib2Settings

/-- The name of the field that `s` describes: `field_identity_name` applied to the settings. -/
def identityName (s : Grib2Settings) : String :=
  fieldIdentityName s.discipline s.parameterCategory s.parameterNumber s.typeOfFirstFixedSurface
    s.scaledValueFirstSurface s.pdtNumber s.chemicalConstituentType s.aerosolType
    s.opticalPropertyType s.wavelengthFirstNm s.wavelengthLastNm s.ensemblePerturbationNumber
    s.statisticalProcess

/-- The settings name a template the driver supports. -/
def Supported (s : Grib2Settings) : Prop := ∃ p : Pdt, s.pdtNumber = p.number

/-- The descriptors that only some templates carry, by template. -/
def carried (s : Grib2Settings) : Pdt → List Int64
  | .pdt0 => []
  | .pdt8 => [s.statisticalProcess]
  | .pdt40 => [s.chemicalConstituentType]
  | .pdt44 => [s.aerosolType]
  | .pdt45 => [s.aerosolType, s.ensemblePerturbationNumber]
  | .pdt46 => [s.aerosolType, s.statisticalProcess]
  | .pdt48 => [s.aerosolType, s.opticalPropertyType, s.wavelengthFirstNm, s.wavelengthLastNm]
  | .pdt49 => [s.aerosolType, s.opticalPropertyType, s.wavelengthFirstNm, s.wavelengthLastNm,
      s.ensemblePerturbationNumber]

end Grib2Settings

/-- Two settings describe the same field. -/
structure SameField (s s' : Grib2Settings) : Prop where
  pdtNumber : s.pdtNumber = s'.pdtNumber
  discipline : s.discipline = s'.discipline
  parameterCategory : s.parameterCategory = s'.parameterCategory
  parameterNumber : s.parameterNumber = s'.parameterNumber
  surfaceType : s.typeOfFirstFixedSurface = s'.typeOfFirstFixedSurface
  surfaceValue : s.scaledValueFirstSurface = s'.scaledValueFirstSurface
  carried : ∀ p : Pdt, s.pdtNumber = p.number → s.carried p = s'.carried p

/-! ### The reader computes the writer's name -/

/-- What a record says about its product, when it comes back as it was stored. -/
def GribField.Holds (gfld : GribField) (s : Grib2Settings) (template : List Int64) : Prop :=
  gfld.ipdtnum = s.pdtNumber ∧ gfld.ipdtmpl = some template

/-- **Encode, then index**: the key of a record that holds the template of `s` is the name of `s`.
One case per template: the offsets in the builder, the surface table and the decoder agree. -/
theorem recordKey_of_settings {s : Grib2Settings} (hs : s.Supported) {gfld : GribField}
    {template : List Int64} (ht : buildPdt s = .ok template) (hg : gfld.Holds s template) :
    recordKey s.discipline gfld = s.identityName := by
  obtain ⟨p, hp⟩ := hs
  obtain ⟨hnum, htmpl⟩ := hg
  have hsel : Pdt.select s.pdtNumber = some p := by rw [hp, Pdt.select_number]
  simp only [buildPdt, hsel] at ht
  cases p <;>
    · obtain rfl := Except.ok.inj ht
      simp only [recordKey, pdtValue, pdtSurfaceTypeIndex, pdtSurfaceValueIndex,
        extractCompositionMetadata, Grib2Settings.identityName, fieldIdentityName, hnum, htmpl,
        hsel, Option.getD_some]
      rfl

/-- Every supported template is built. -/
theorem buildPdt_isOk {s : Grib2Settings} (hs : s.Supported) :
    ∃ template, buildPdt s = .ok template := by
  obtain ⟨p, hp⟩ := hs
  have hsel : Pdt.select s.pdtNumber = some p := by rw [hp, Pdt.select_number]
  simp only [buildPdt, hsel]
  cases p <;> exact ⟨_, rfl⟩

/-! ### A name determines the descriptors -/

/-- The labels of the segments that a template adds to a name. -/
def Pdt.labels : Pdt → List String
  | .pdt0 => []
  | .pdt8 => ["_sp"]
  | .pdt40 => ["_ct"]
  | .pdt44 => ["_at"]
  | .pdt45 => ["_at", "_ep"]
  | .pdt46 => ["_at", "_sp"]
  | .pdt48 => ["_at", "_op", "_wl", "_"]
  | .pdt49 => ["_at", "_op", "_wl", "_", "_ep"]

/-- The labelled values a name is made of. -/
def Grib2Settings.segments (s : Grib2Settings) (p : Pdt) : List (List Char × ℤ) :=
  (("d" :: "_c" :: "_n" :: "_s" :: "_l" :: p.labels).map String.toList).zip
    ((s.discipline :: s.parameterCategory :: s.parameterNumber :: s.typeOfFirstFixedSurface ::
      s.scaledValueFirstSurface :: s.carried p).map Int64.toInt)

/-- No label shares a symbol with a numeral. -/
theorem isLabel_of_mem_segments {s : Grib2Settings} {p : Pdt} :
    ∀ x ∈ s.segments p, decimal.IsLabel x.1 := by
  have hlabels : ∀ l ∈ ("d" :: "_c" :: "_n" :: "_s" :: "_l" :: p.labels).map String.toList,
      l ≠ [] ∧ l.any isNumeral = false := by
    cases p <;> decide
  intro x hx
  obtain ⟨hne, hnone⟩ := hlabels x.1 (List.of_mem_zip hx).1
  exact ⟨hne, fun c hc => by simpa using List.any_eq_false.mp hnone c hc⟩

/-- The decimal digits of a number. -/
theorem toString_int64 (x : Int64) : (toString x).toList = decimal.body x.toInt := rfl

/-- A name is the text of its segments. -/
theorem identityName_toList {s : Grib2Settings} {p : Pdt} (hp : s.pdtNumber = p.number) :
    s.identityName.toList = decimal.render (s.segments p) := by
  have hsel : Pdt.select s.pdtNumber = some p := by rw [hp, Pdt.select_number]
  simp only [Grib2Settings.identityName, fieldIdentityName, hsel]
  cases p <;>
    simp [fieldIdentityBase, Grib2Settings.segments, Pdt.labels, Grib2Settings.carried,
      toString_int64, Format.render]

/-- The segments determine the template: the eight lists of labels are different. -/
theorem pdt_eq_of_segments {s s' : Grib2Settings} {p p' : Pdt}
    (h : s.segments p = s'.segments p') : p = p' := by
  have hlen : ∀ (t : Grib2Settings) (q : Pdt), (t.segments q).map Prod.fst =
      ("d" :: "_c" :: "_n" :: "_s" :: "_l" :: q.labels).map String.toList := by
    intro t q
    cases q <;> rfl
  have hlabels := congrArg (List.map Prod.fst) h
  rw [hlen, hlen] at hlabels
  revert hlabels
  cases p <;> cases p' <;> decide

/-- The segments determine the values. -/
theorem values_eq_of_segments {s s' : Grib2Settings} {p : Pdt} (h : s.segments p = s'.segments p) :
    s.discipline = s'.discipline ∧ s.parameterCategory = s'.parameterCategory ∧
      s.parameterNumber = s'.parameterNumber ∧
      s.typeOfFirstFixedSurface = s'.typeOfFirstFixedSurface ∧
      s.scaledValueFirstSurface = s'.scaledValueFirstSurface ∧ s.carried p = s'.carried p := by
  have hvals : ∀ t : Grib2Settings, (t.segments p).map Prod.snd =
      (t.discipline :: t.parameterCategory :: t.parameterNumber :: t.typeOfFirstFixedSurface ::
        t.scaledValueFirstSurface :: t.carried p).map Int64.toInt := by
    intro t
    cases p <;> rfl
  have hmap := congrArg (List.map Prod.snd) h
  rw [hvals, hvals] at hmap
  have hinj := List.map_injective_iff.mpr (fun a b => Int64.toInt_inj.mp) hmap
  simpa using hinj

/-- **Names are injective**: two supported settings have one name exactly when they describe the
same field. -/
theorem identityName_eq_iff {s s' : Grib2Settings} (hs : s.Supported) (hs' : s'.Supported) :
    s.identityName = s'.identityName ↔ SameField s s' := by
  obtain ⟨p, hp⟩ := hs
  obtain ⟨p', hp'⟩ := hs'
  constructor
  · intro h
    -- equal names are equal renderings, which read back as equal segments
    have hrender : decimal.render (s.segments p) = decimal.render (s'.segments p') := by
      rw [← identityName_toList hp, ← identityName_toList hp', h]
    have hseg := Format.render_injective isLabel_of_mem_segments isLabel_of_mem_segments hrender
    obtain rfl := pdt_eq_of_segments hseg
    obtain ⟨hd, hc, hn, ht, hv, hcar⟩ := values_eq_of_segments hseg
    refine ⟨hp.trans hp'.symm, hd, hc, hn, ht, hv, fun q hq => ?_⟩
    have : q = p := Option.some.inj (by rw [← Pdt.select_number q, ← hq, hp, Pdt.select_number])
    rw [this, hcar]
  · intro h
    -- one template, and then the same values in it
    have hpp : p' = p := Option.some.inj
      (by rw [← Pdt.select_number p', ← hp', ← h.pdtNumber, hp, Pdt.select_number])
    subst hpp
    apply String.toList_injective
    rw [identityName_toList hp, identityName_toList hp']
    unfold Grib2Settings.segments
    rw [h.discipline, h.parameterCategory, h.parameterNumber, h.surfaceType, h.surfaceValue,
      h.carried _ hp]

/-! ### The index of a written file -/

/-- What the driver relies on in `nceplibs-g2c`: a message of one field gives back the discipline,
the template number and the template values it was packed with. -/
structure G2c.Stores {Msg : Type} (g : G2c Msg) : Prop where
  info_pack : ∀ d n t, g.info (g.pack d n t) = (0, d, 1)
  getfld_pack : ∀ d n t, ∃ gfld, g.getfld (g.pack d n t) 1 = (0, some gfld) ∧
    gfld.ipdtnum = n ∧ gfld.ipdtmpl = some t

/-- The record locations filed under `key`. -/
def recordsOf (records : RecordIndex) (key : String) : List GribRecordLocation :=
  ((records.lookup key).map GribFieldIndex.records).getD []

@[simp] theorem recordsOf_empty (key : String) : recordsOf ∅ key = [] := rfl

/-- A record is filed at the end of its own key. -/
theorem recordsOf_fileRecord (records : RecordIndex) (key key' : String) (gfld : GribField)
    (location : GribRecordLocation) :
    recordsOf (fileRecord records key gfld location) key' =
      recordsOf records key' ++ if key = key' then [location] else [] := by
  unfold recordsOf fileRecord
  by_cases h : key = key'
  · subst h
    rw [AList.lookup_insert, if_pos rfl]
    cases hl : records.lookup key with
    | none => rfl
    | some entry =>
      simp only [Option.getD_some, Option.map_some]
      split <;> rfl
  · rw [AList.lookup_insert_ne (Ne.symm h), if_neg h, List.append_nil]

variable {Msg : Type} {g : G2c Msg} (path : String)

/-- One message: its record is filed under the name of the settings it was written with. -/
theorem indexFields_written (hg : g.Stores) {s : Grib2Settings} (hs : s.Supported)
    {m : Located Msg} (hm : writeMessage g s = .ok m.cgrib) (records : RecordIndex) :
    g.info m.cgrib = (0, s.discipline, 1) ∧ ∃ gfld,
      indexFields g path s.discipline m 1 1 records = .ok (fileRecord records s.identityName gfld
        { offset := m.lskip, length := m.lgrib, fieldNumber := 1 }) := by
  obtain ⟨template, ht⟩ := buildPdt_isOk hs
  have hpack : g.pack s.discipline s.pdtNumber template = m.cgrib := by
    simpa only [writeMessage, ht, Except.map, Except.ok.injEq] using hm
  obtain ⟨gfld, hget, hnum, htmpl⟩ := hg.getfld_pack s.discipline s.pdtNumber template
  rw [hpack] at hget
  refine ⟨hpack ▸ hg.info_pack _ _ _, gfld, ?_⟩
  simp only [indexFields, hget, beq_self_eq_true, recordKey_of_settings hs ht ⟨hnum, htmpl⟩]
  rfl

/-- **The index of a written file.** Under each name stand the records whose settings have that
name, in file order. -/
theorem buildRecordIndex_written (hg : g.Stores) {written : List (Grib2Settings × Located Msg)}
    (hw : ∀ w ∈ written, w.1.Supported ∧ writeMessage g w.1 = .ok w.2.cgrib)
    (records : RecordIndex) :
    ∃ index, buildRecordIndex g path (written.map Prod.snd) records = .ok index ∧
      ∀ key, recordsOf index key = recordsOf records key ++
        (written.filter fun w => w.1.identityName = key).map fun w =>
          { offset := w.2.lskip, length := w.2.lgrib, fieldNumber := 1 } := by
  induction written generalizing records with
  | nil => exact ⟨records, rfl, fun key => (List.append_nil _).symm⟩
  | cons w written ih =>
    obtain ⟨hs, hm⟩ := hw w (by simp)
    -- the first message has one field, which is filed under its own name
    obtain ⟨hinfo, gfld, hfields⟩ := indexFields_written path hg hs hm records
    obtain ⟨index, hindex, hrec⟩ := ih (fun w' hw' => hw w' (by simp [hw']))
      (fileRecord records w.1.identityName gfld
        { offset := w.2.lskip, length := w.2.lgrib, fieldNumber := 1 })
    refine ⟨index, ?_, fun key => ?_⟩
    · simp only [List.map_cons, buildRecordIndex, hinfo, ne_eq, not_true_eq_false, if_false,
        hfields, Except.bind]
      exact hindex
    · rw [hrec, recordsOf_fileRecord, List.append_assoc]
      -- under another name nothing was filed
      by_cases hkey : w.1.identityName = key
      · simp [hkey]
      · simp [hkey]

/-- **Field identity.** A record written with supported settings is filed under the name of these
settings and under no other, and two supported settings have one name exactly when they describe
the same field. -/
theorem field_identity (hg : g.Stores) :
    (∀ (s : Grib2Settings) (m : Located Msg), s.Supported → writeMessage g s = .ok m.cgrib →
      ∃ index, buildRecordIndex g path [m] ∅ = .ok index ∧ ∀ key, recordsOf index key =
        if s.identityName = key then [{ offset := m.lskip, length := m.lgrib, fieldNumber := 1 }]
        else []) ∧
    (∀ s : Grib2Settings, s.Supported → ∃ msg, writeMessage g s = .ok msg) ∧
    ∀ s s' : Grib2Settings, s.Supported → s'.Supported →
      (s.identityName = s'.identityName ↔ SameField s s') := by
  refine ⟨fun s m hs hm => ?_, fun s hs => ?_, fun s s' hs hs' => identityName_eq_iff hs hs'⟩
  -- one message, in an empty index
  · have hw : ∀ w ∈ [(s, m)], w.1.Supported ∧ writeMessage g w.1 = .ok w.2.cgrib := by
      simpa using ⟨hs, hm⟩
    obtain ⟨index, hindex, hrec⟩ := buildRecordIndex_written path hg hw ∅
    refine ⟨index, hindex, fun key => ?_⟩
    rw [hrec key, recordsOf_empty, List.nil_append]
    by_cases hkey : s.identityName = key
    · simp [hkey]
    · simp [hkey]
  · obtain ⟨template, ht⟩ := buildPdt_isOk hs
    exact ⟨_, by rw [writeMessage, ht]; rfl⟩

/-- A library that keeps the product section as it is given. -/
def recordingG2c : G2c (Int64 × Int64 × List Int64) where
  pack d n t := (d, n, t)
  info m := (0, m.1, 1)
  getfld m _ :=
    (0, some { ipdtnum := m.2.1, ipdtmpl := some m.2.2, igdtmpl := none, ngrdpts := 0 })

/-- The recording library gives back what it was given. -/
theorem recordingG2c_stores : recordingG2c.Stores where
  info_pack _ _ _ := rfl
  getfld_pack _ _ _ := ⟨_, rfl, rfl, rfl⟩

/-- Two optical-property fields that differ in their second wavelength only are indexed apart. -/
theorem field_identity_wavelengths :
    let s : Grib2Settings := { pdtNumber := 48, wavelengthFirstNm := -5, wavelengthLastNm := 1 }
    let s' : Grib2Settings := { pdtNumber := 48, wavelengthFirstNm := -5, wavelengthLastNm := 11 }
    (∃ index, buildRecordIndex recordingG2c "f" [⟨0, 9, (0, 48, buildPdt4_48 s)⟩] ∅ = .ok index ∧
      recordsOf index s.identityName = [⟨0, 9, 1⟩]) ∧ s.identityName ≠ s'.identityName := by
  intro s s'
  obtain ⟨hkey, -, hiff⟩ := field_identity "f" recordingG2c_stores
  have hs : s.Supported := ⟨.pdt48, rfl⟩
  have hs' : s'.Supported := ⟨.pdt48, rfl⟩
  refine ⟨?_, fun h => ?_⟩
  · obtain ⟨index, hindex, hrec⟩ := hkey s ⟨0, 9, (0, 48, buildPdt4_48 s)⟩ hs rfl
    exact ⟨index, hindex, by rw [hrec, if_pos rfl]⟩
  · have hcar := ((hiff s s' hs hs').mp h).carried .pdt48 rfl
    exact absurd hcar (by decide)

end Amio.Grib2
