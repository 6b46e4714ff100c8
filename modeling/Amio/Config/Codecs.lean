import Amio.Config.Validation

/-!
# The two codec validators

The codec of a manifest is checked when the manifest is parsed, by the last rules of `validate`, and
again when a NetCDF dataset is opened for writing, by `NetCDF_Driver::validate_codec`
(`drivers/netcdf/netcdf_driver.cpp`). The loader does not consult an empty allow-list; the driver
finds nothing on it. So they agree except where a recognised codec is active without an allow-list
(`codec_validators_agree_iff`).
-/

namespace Amio

namespace NetCdf

/-! ### The driver -/

/-- `lossy_codecs`. -/
def lossyCodecs : List String := ["lossy", "sz", "zfp_lossy", "fpzip_lossy"]

/-- `validate_codec`; an error is the text of the exception. -/
def validateCodec (codec : String) (allowList : List String) : Except String Unit :=
  -- no codec, no question
  if codec = "" then .ok ()
  else if codec ∉ allowList then
    .error ("NetCDF_Driver: codec '" ++ codec ++ "' is not on the " ++
      "lossless compression allow-list. Only lossless filters " ++
      "are permitted for NetCDF-4 output (R7.5)")
  -- a lossy codec is refused even if the manifest lists it
  else if codec ∈ lossyCodecs then
    .error ("NetCDF_Driver: codec '" ++ codec ++
      "' is a lossy codec and cannot be used with NetCDF-4 output (R7.5)")
  else .ok ()

/-- What may leave `open_write` while it reads the codec settings: an exception of CONF, or that of
`validate_codec`. -/
inductive CodecThrow
  | conf (e : ConfError)
  | refused (what : String)
  deriving DecidableEq, Repr

/-- `config.get_string_list(key)` where the key is there. -/
def allowListAt (m : Conf) (key : String) : Except ConfError (List String) :=
  if m.has key then m.getStringList key else .ok []

/-- The keys that `open_write` reads `active_codec_` and `codec_allow_list_` from. -/
def readCodec (m : Conf) : Except ConfError (String × List String) :=
  if m.has "codec.active_codec" ∨ m.has "codec.lossless_allow_list" then do
    let active ← m.getStringOr "codec.active_codec" ""
    let allowList ← allowListAt m "codec.lossless_allow_list"
    pure (active, allowList)
  -- the legacy flat keys
  else do
    let allowList ← allowListAt m "codec_allow_list"
    let active ← m.getStringOr "codec" ""
    pure (active, allowList)

/-- The codec part of `open_write`. -/
def openCodec (m : Conf) : Except CodecThrow Unit :=
  match readCodec m with
  | .error e => .error (.conf e)
  | .ok (active, allowList) => (validateCodec active allowList).mapError .refused

theorem validateCodec_eq_ok {codec : String} {allowList : List String} :
    validateCodec codec allowList = .ok () ↔
      codec = "" ∨ (codec ∈ allowList ∧ codec ∉ lossyCodecs) := by
  unfold validateCodec
  split
  · next h => simp [h]
  · next h =>
    split
    · next hmem => simp [h, hmem]
    · next hmem =>
      split
      · next hlossy => simp [h, hlossy]
      · next hlossy => simp [not_not.mp hmem, hlossy]

end NetCdf

namespace ConfigLoader

open NetCdf

variable {m : Conf} {error error' : ValidationError}

/-- No lossless codec is known as a lossy one. -/
theorem not_lossy_of_isValidCodec {codec : String} (h : isValidCodec codec) :
    codec ∉ lossyCodecs := by
  have hdisjoint : ∀ name ∈ validCodecs, name ∉ lossyCodecs := by decide
  exact hdisjoint codec (by simpa [isValidCodec] using h)

/-! ### The settings of a manifest -/

/-- The manifest has `v` at `key`, or nothing. -/
def Holds {α : Type} (m : Conf) (get : Conf → String → Except ConfError α) (key : String)
    (v : Option α) : Prop :=
  m.has key = v.isSome ∧ ∀ a ∈ v, get m key = .ok a

/-- `get_or` answers with its default only for a key that is not there. -/
def GetsOr (m : Conf) : Prop :=
  ∀ key default v, Holds m Conf.getString key v → m.getStringOr key default = .ok (v.getD default)

/-- The codec settings of a manifest: the keys of the schema, and the legacy flat keys. -/
structure CodecSettings where
  active : Option String := none
  allowList : Option (List String) := none
  flatActive : Option String := none
  flatAllowList : Option (List String) := none

/-- The manifest has neither key of the schema. -/
def CodecSettings.Flat (s : CodecSettings) : Prop := s.active = none ∧ s.allowList = none

/-- The manifest `m` has the settings `s`. The legacy keys count only where neither key of the
schema is there: with one of them, `codec` is the head of a map. -/
structure CodecSettings.Of (s : CodecSettings) (m : Conf) : Prop where
  active : Holds m Conf.getString "codec.active_codec" s.active
  allowList : Holds m Conf.getStringList "codec.lossless_allow_list" s.allowList
  flatActive : s.Flat → Holds m Conf.getString "codec" s.flatActive
  flatAllowList : s.Flat → Holds m Conf.getStringList "codec_allow_list" s.flatAllowList

/-- The driver's test for the keys of the schema fails. -/
theorem CodecSettings.flat_of_not_isSome {s : CodecSettings}
    (h : ¬ (s.active.isSome ∨ s.allowList.isSome)) : s.Flat := by
  simpa [CodecSettings.Flat, not_or] using h

/-- A setting, or its default. -/
theorem Holds.valueD {α : Type} {get : Conf → String → Except ConfError α} {key : String}
    {v : Option α} (h : Holds m get key v) (default : α) :
    valueD m get key default = v.getD default := by
  obtain ⟨hhas, hget⟩ := h
  unfold ConfigLoader.valueD
  cases v with
  | none => simp [hhas]
  | some a => simp [hhas, hget a rfl]

/-- An allow-list, or the empty one. -/
theorem Holds.allowListAt {key : String} {v : Option (List String)}
    (h : Holds m Conf.getStringList key v) : allowListAt m key = .ok (v.getD []) := by
  obtain ⟨hhas, hget⟩ := h
  unfold NetCdf.allowListAt
  cases v with
  | none => simp [hhas]
  | some a => simp [hhas, hget a rfl]

/-- What the driver reads. -/
def CodecSettings.driver (s : CodecSettings) : String × List String :=
  if s.active.isSome ∨ s.allowList.isSome then (s.active.getD "", s.allowList.getD [])
  else (s.flatActive.getD "", s.flatAllowList.getD [])

/-- The driver reads the settings of the manifest. -/
theorem readCodec_eq {s : CodecSettings} (hor : GetsOr m) (hs : s.Of m) :
    readCodec m = .ok s.driver := by
  unfold readCodec CodecSettings.driver
  rw [hs.active.1, hs.allowList.1]
  split
  · rw [hor _ _ _ hs.active, hs.allowList.allowListAt]
    rfl
  · next hkeys =>
    -- only here does the driver look at the legacy keys
    have hflat := CodecSettings.flat_of_not_isSome hkeys
    rw [hor _ _ _ (hs.flatActive hflat), (hs.flatAllowList hflat).allowListAt]
    rfl

/-- The codecs with which the driver opens. -/
theorem openCodec_eq_ok {s : CodecSettings} (hor : GetsOr m) (hs : s.Of m) :
    openCodec m = .ok () ↔
      s.driver.1 = "" ∨ (s.driver.1 ∈ s.driver.2 ∧ s.driver.1 ∉ lossyCodecs) := by
  rw [← validateCodec_eq_ok]
  unfold openCodec
  rw [readCodec_eq hor hs]
  cases hv : validateCodec s.driver.1 s.driver.2 with
  | ok u => simp [hv, Except.mapError]
  | error e => simp [hv, Except.mapError]

/-- What the codec rules of the loader accept. -/
theorem codecRules_accept {s : CodecSettings} (hs : s.Of m) :
    firstFailure codecRules (readConfig m) = none ↔
      (∀ codec ∈ s.allowList.getD [], isValidCodec codec) ∧
      (s.active.getD "" ≠ "" → isValidCodec (s.active.getD "") ∧
        (s.allowList.getD [] ≠ [] → s.active.getD "" ∈ s.allowList.getD [])) := by
  rw [firstFailure_eq_none]
  simp only [codecRules, List.forall_mem_cons, List.not_mem_nil, false_imp_iff, implies_true,
    and_true, check_allowListRule, check_activeCodecRules, readConfig, hs.active.valueD,
    hs.allowList.valueD]

/-! ### Agreement -/

/-- The settings are lossless codecs that the loader knows. -/
def Recognised (c : CodecConfig) : Prop :=
  (∀ codec ∈ c.losslessAllowList, isValidCodec codec) ∧
    (c.activeCodec ≠ "" → isValidCodec c.activeCodec)

/-- The loader and the driver agree about the manifest `m`. -/
structure Agree (m : Conf) : Prop where
  accepts_iff : firstFailure codecRules (readConfig m) = none ↔
    Recognised (readConfig m).codec ∧ openCodec m = .ok ()
  opens : ∀ c error error', populateFromConf m error = (.ok, c, error') → openCodec m = .ok ()
  not_refused : openCodec m = .ok () → ∀ c error error',
    populateFromConf m error = (.lossyCodecForbidden, c, error') →
      error'.fieldPath ≠ "codec.active_codec"

/-- A recognised codec is active without an allow-list, or, where the manifest has neither key of
the schema, a codec is active under the legacy key that the driver refuses. -/
def CodecSettings.Unlisted (s : CodecSettings) : Prop :=
  if s.active.isSome ∨ s.allowList.isSome then
    s.active.getD "" ≠ "" ∧ isValidCodec (s.active.getD "") ∧ s.allowList.getD [] = []
  else
    s.flatActive.getD "" ≠ "" ∧
      (s.flatActive.getD "" ∉ s.flatAllowList.getD [] ∨ s.flatActive.getD "" ∈ lossyCodecs)

variable {s : CodecSettings}

/-- **Where the active codec is not unlisted, one decision is the other.** -/
theorem accepts_iff_of_listed (hor : GetsOr m) (hs : s.Of m) (hlisted : ¬ s.Unlisted) :
    firstFailure codecRules (readConfig m) = none ↔
      Recognised (readConfig m).codec ∧ openCodec m = .ok () := by
  rw [codecRules_accept hs, openCodec_eq_ok hor hs]
  simp only [Recognised, readConfig, hs.active.valueD, hs.allowList.valueD]
  unfold CodecSettings.Unlisted at hlisted
  unfold CodecSettings.driver
  split
  · next hkeys =>
    rw [if_pos hkeys] at hlisted
    constructor
    · rintro ⟨hlist, hactive⟩
      refine ⟨⟨hlist, fun hne => (hactive hne).1⟩, or_iff_not_imp_left.mpr fun hne => ?_⟩
      obtain ⟨hvalid, hmem⟩ := hactive hne
      exact ⟨hmem fun hnil => hlisted ⟨hne, hvalid, hnil⟩, not_lossy_of_isValidCodec hvalid⟩
    · rintro ⟨⟨hlist, hvalid⟩, hopen⟩
      exact ⟨hlist, fun hne => ⟨hvalid hne, fun _ => (hopen.resolve_left hne).1⟩⟩
  · next hkeys =>
    -- neither key: the loader has nothing to check, and the driver reads the legacy keys
    rw [if_neg hkeys] at hlisted
    have hflat := CodecSettings.flat_of_not_isSome hkeys
    simp only [hflat.1, hflat.2, Option.getD_none]
    simp only [ne_eq, not_and, not_or, not_not] at hlisted
    simpa using or_iff_not_imp_left.mpr hlisted

/-- **Where it is, the loader accepts and the driver refuses.** -/
theorem refused_of_unlisted (hor : GetsOr m) (hs : s.Of m) (h : s.Unlisted) :
    firstFailure codecRules (readConfig m) = none ∧ openCodec m ≠ .ok () := by
  rw [codecRules_accept hs]
  unfold CodecSettings.Unlisted at h
  refine ⟨?_, mt (openCodec_eq_ok hor hs).mp ?_⟩
  · split at h
    -- the allow-list that the driver looks at is empty, so the loader does not look at it
    · next hkeys =>
      rw [h.2.2]
      exact ⟨by simp, fun _ => ⟨h.2.1, fun hne => absurd rfl hne⟩⟩
    -- with neither key the loader has nothing to look at
    · next hkeys =>
      have hflat := CodecSettings.flat_of_not_isSome hkeys
      simp [hflat.1, hflat.2]
  · unfold CodecSettings.driver
    split
    · next hkeys =>
      rw [if_pos hkeys] at h
      rw [h.2.2]
      simpa using h.1
    · next hkeys =>
      rw [if_neg hkeys] at h
      rintro (hnil | ⟨hmem, hlossless⟩)
      · exact h.1 hnil
      · exact h.2.elim (· hmem) hlossless

/-- Where the driver opens and the allow-list is recognised, the rules about the active codec
pass. -/
theorem activeCodec_passes (hor : GetsOr m) (hs : s.Of m) (hopen : openCodec m = .ok ())
    (hlist : allowListRule.check (readConfig m) = none) :
    activeCodecRule.check (readConfig m) = none ∧ onAllowListRule.check (readConfig m) = none := by
  rw [check_allowListRule] at hlist
  rw [check_activeCodecRules]
  rw [openCodec_eq_ok hor hs] at hopen
  simp only [readConfig, hs.active.valueD, hs.allowList.valueD] at hlist ⊢
  intro hne
  -- there is an active codec, so the driver reads the keys of the schema
  have hkeys : s.active.isSome ∨ s.allowList.isSome := by
    refine .inl (Option.isSome_iff_ne_none.mpr fun hnone => ?_)
    simp [hnone] at hne
  rw [CodecSettings.driver, if_pos hkeys] at hopen
  have hmem := (hopen.resolve_left hne).1
  exact ⟨hlist _ hmem, fun _ => hmem⟩

/-- **What the driver opens, the loader does not refuse for its active codec.** -/
theorem not_refused_of_opens (hor : GetsOr m) (hs : s.Of m) (hopen : openCodec m = .ok ())
    {field message : String} {code : AmioErr}
    (h : firstFailure rules (readConfig m) = some (field, code, message)) :
    field ≠ "codec.active_codec" := by
  rw [firstFailure, rules, List.findSome?_append, Option.or_eq_some_iff] at h
  rcases h with h | ⟨-, h⟩
  -- a rule about a number
  · have hnumeric : ∀ r ∈ [bufferCountRule, bufferCapacityRule, maxBufferCountRule, threadsRule,
        depthRule, readTimeoutRule, stagingTimeoutRule, lowWatermarkRule, highWatermarkRule],
        r.field ≠ "codec.active_codec" := by decide
    obtain ⟨r, hr, rfl, -⟩ := firstFailure_eq_some h
    exact hnumeric r hr
  · obtain ⟨r, hr, rfl, hcheck⟩ := firstFailure_eq_some h
    intro hfield
    cases hlist : allowListRule.check (readConfig m) with
    | some f =>
      -- the loop over the allow-list comes first
      simp only [codecRules, List.findSome?_cons, hlist, Option.map_some, Option.some.injEq,
        Prod.mk.injEq] at h
      rw [← h.1] at hfield
      exact absurd hfield (by decide)
    | none =>
      obtain ⟨hactive, hlisted⟩ := activeCodec_passes hor hs hopen hlist
      simp [codecRules, hlist, hactive, hlisted] at h

/-- **The codec validators agree exactly when the active codec is not unlisted**, for every manifest
with any settings under the keys of the schema or, with neither, under the legacy keys. -/
theorem codec_validators_agree_iff (m : Conf) (hor : GetsOr m) (s : CodecSettings) (hs : s.Of m) :
    Agree m ↔ ¬ s.Unlisted := by
  constructor
  -- an unlisted codec is where the two disagree
  · intro h hunlisted
    obtain ⟨haccepts, hrefuses⟩ := refused_of_unlisted hor hs hunlisted
    exact hrefuses (h.accepts_iff.mp haccepts).2
  -- else each of them accepts what the other does
  · intro hlisted
    have hiff := accepts_iff_of_listed hor hs hlisted
    refine ⟨hiff, fun c error error' hpopulate => ?_, fun hopen c error error' hpopulate => ?_⟩
    · obtain ⟨rfl, hvalid, -⟩ := populateFromConf_ok hpopulate
      refine (hiff.mp ((codecRules_accept hs).mpr ⟨?_, ?_⟩)).2
      · simpa [readConfig, hs.allowList.valueD] using hvalid.allowList
      · simpa only [readConfig, hs.active.valueD, hs.allowList.valueD] using hvalid.activeCodec
    · rcases populateFromConf_cases hpopulate with ⟨rfl, hvalidate, -⟩ | hcode
      · exact not_refused_of_opens hor hs hopen (firstFailure_of_validate hvalidate (by decide))
      · cases hcode

/-! ### Two manifests -/

/-- A document of strings and of lists of strings, with the heads of its maps, as CONF would answer
for it. -/
def textDocument (heads : List String) (strings : List (String × String))
    (lists : List (String × List String)) : Conf where
  has key := heads.contains key || (strings.lookup key).isSome || (lists.lookup key).isSome
  getInt key := .error ⟨.typeMismatch, key⟩
  getString key :=
    match strings.lookup key with
    | some v => .ok v
    | none => .error ⟨.keyNotFound, key⟩
  getIntList key := .error ⟨.typeMismatch, key⟩
  getStringList key :=
    match lists.lookup key with
    | some v => .ok v
    | none => .error ⟨.keyNotFound, key⟩
  getStringOr key default :=
    match strings.lookup key with
    | some v => .ok v
    | none => .ok default

/-- Such a document answers with a default only for a key that is not there. -/
theorem getsOr_textDocument {heads : List String} {strings : List (String × String)}
    {lists : List (String × List String)} : GetsOr (textDocument heads strings lists) := by
  rintro key default v ⟨hhas, hget⟩
  simp only [textDocument] at hhas hget ⊢
  cases v with
  | none =>
    simp only [Option.isSome_none, Bool.or_eq_false_iff, Option.isSome_eq_false_iff,
      Option.isNone_iff_eq_none] at hhas
    simp [hhas.1.2]
  | some a =>
    have := hget a rfl
    split at this
    · next b hb => simpa [hb] using this
    · cases this

/-- The active codec is on the allow-list, and `codec` is the map that holds both. -/
def listedBlosc : Conf :=
  textDocument ["codec"] [("codec.active_codec", "blosc")]
    [("codec.lossless_allow_list", ["zstandard", "blosc"])]

theorem codec_validators_agree_listed :
    Agree listedBlosc ↔ ¬ CodecSettings.Unlisted
      { active := some "blosc", allowList := some ["zstandard", "blosc"] } :=
  codec_validators_agree_iff listedBlosc getsOr_textDocument _
    ⟨⟨rfl, by rintro _ ⟨⟩; rfl⟩, ⟨rfl, by rintro _ ⟨⟩; rfl⟩, by rintro ⟨⟨⟩, -⟩,
      by rintro ⟨⟨⟩, -⟩⟩

/-- There is no allow-list. -/
def unlistedBlosc : Conf := textDocument ["codec"] [("codec.active_codec", "blosc")] []

/-- **A manifest without an allow-list passes the loader and is refused by the driver.** -/
theorem unlisted_codec_refused :
    GetsOr unlistedBlosc ∧ (∃ c, populateFromConf unlistedBlosc {} = (.ok, c, {})) ∧
      (∃ what, openCodec unlistedBlosc = .error (.refused what)) ∧
      ¬ Agree unlistedBlosc := by
  have hpopulate : populateFromConf unlistedBlosc {} =
      (.ok, (populateFromConf unlistedBlosc {}).2.1, {}) := rfl
  refine ⟨getsOr_textDocument, ⟨_, hpopulate⟩, ⟨_, rfl⟩, fun h => ?_⟩
  have hopens := h.opens _ _ _ hpopulate
  revert hopens
  decide

end ConfigLoader

end Amio
