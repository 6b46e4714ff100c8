import Amio.Config.Validation

/-!
# The integers of an accepted manifest

`populate_from_conf` casts every integer to `std::size_t` before `validate` looks at it. A negative
integer becomes a number of at least `2 ^ 63`, which the upper end of a range refuses; the
watermarks and the queue capacity have no such end, and are only compared with one another
(`accepted_faithful_iff`). `numa_domain` is converted to `int` and never looked at.
-/

namespace Amio

namespace ConfigLoader

variable {c : Config} {m : Conf} {error error' : ValidationError}

/-! ### What the manifest says -/

/-- `get_int` is declared with a signed integer type of at most 64 bits. -/
def SignedInts (m : Conf) : Prop :=
  ∀ key n, m.getInt key = .ok n → -2 ^ 63 ≤ n ∧ n < 2 ^ 63

/-- The integer that the manifest has at `key`, or the default of the field. -/
def intD (m : Conf) (key : String) (default : Int) : Int := valueD m Conf.getInt key default

/-- A field that is cast to `std::size_t`: its key, its default and where it is stored. -/
structure SizeField where
  key : String
  default : UInt64
  value : Config → UInt64

def sizeFields : List SizeField :=
  [⟨"staging_pool.buffer_count", 16, (·.stagingPool.bufferCount)⟩,
    ⟨"staging_pool.buffer_capacity_bytes", 1048576, (·.stagingPool.bufferCapacityBytes)⟩,
    ⟨"staging_pool.max_buffer_count", 4096, (·.stagingPool.maxBufferCount)⟩,
    ⟨"worker_pool.threads", 1, (·.workerPool.threads)⟩,
    ⟨"prefetch.depth", 4, (·.prefetch.depth)⟩,
    ⟨"prefetch.read_timeout_s", 60, (·.prefetch.readTimeoutS)⟩,
    ⟨"staging_timeout_ms", 5000, (·.stagingTimeoutMs)⟩,
    ⟨"backpressure.low_watermark", 0, (·.backpressure.lowWatermark)⟩,
    ⟨"backpressure.high_watermark", 0, (·.backpressure.highWatermark)⟩,
    ⟨"backpressure.queue_capacity", 1024, (·.backpressure.queueCapacity)⟩]

/-- The documented ranges: a key, its default, and the ends. -/
def documentedRanges : List (String × Int × Int × Int) :=
  [("staging_pool.buffer_count", 16, 1, 4096),
    ("staging_pool.buffer_capacity_bytes", 1048576, 1, 1073741824),
    ("worker_pool.threads", 1, 1, 256),
    ("prefetch.depth", 4, 1, 1024),
    ("prefetch.read_timeout_s", 60, 1, 3600),
    ("staging_timeout_ms", 5000, 1, 60000)]

/-- The configuration `c` says what the manifest `m` says, and the manifest keeps to the schema. -/
structure Faithful (m : Conf) (c : Config) : Prop where
  sizes : ∀ f ∈ sizeFields, m.has f.key →
    ∃ n, m.getInt f.key = .ok n ∧ ((f.value c).toNat : Int) = n
  numaDomain : m.has "worker_pool.numa_domain" →
    ∃ n d, m.getInt "worker_pool.numa_domain" = .ok n ∧ c.workerPool.numaDomain = some d ∧
      d.toInt = n
  cpuCores : m.has "worker_pool.cpu_cores" →
    m.getIntList "worker_pool.cpu_cores" = .ok c.workerPool.cpuCores
  ioRanks : m.has "io_ranks" → m.getIntList "io_ranks" = .ok c.ioRanks
  ranges : ∀ r ∈ documentedRanges, r.2.2.1 ≤ intD m r.1 r.2.1 ∧ intD m r.1 r.2.1 ≤ r.2.2.2
  ceiling : intD m "staging_pool.buffer_count" 16 ≤ intD m "staging_pool.max_buffer_count" 4096 ∧
    intD m "staging_pool.max_buffer_count" 4096 ≤ 4096
  watermarks : intD m "backpressure.high_watermark" 0 ≠ 0 →
    0 ≤ intD m "backpressure.low_watermark" 0 ∧
    intD m "backpressure.low_watermark" 0 < intD m "backpressure.high_watermark" 0 ∧
    intD m "backpressure.high_watermark" 0 ≤ intD m "backpressure.queue_capacity" 1024

/-- The integers that no range refuses have a value of the type they are stored in. -/
structure Representable (m : Conf) : Prop where
  nonneg : ∀ key ∈ ["backpressure.low_watermark", "backpressure.high_watermark",
      "backpressure.queue_capacity"],
    m.has key → ∀ n, m.getInt key = .ok n → 0 ≤ n
  numaDomain : m.has "worker_pool.numa_domain" →
    ∀ n, m.getInt "worker_pool.numa_domain" = .ok n → -2 ^ 31 ≤ n ∧ n < 2 ^ 31

/-! ### The cast -/

/-- A number that is not negative is cast exactly. -/
theorem toNat_ofInt_of_nonneg {n : Int} (h : 0 ≤ n) (hlt : n < 2 ^ 63) :
    ((UInt64.ofInt n).toNat : Int) = n := by
  rw [toNat_ofInt]
  omega

/-- The upper end of a range catches the negative integers. -/
theorem toNat_ofInt_of_le {n : Int} {hi : UInt64} (hn : -2 ^ 63 ≤ n ∧ n < 2 ^ 63)
    (hhi : hi.toNat < 2 ^ 63) (h : UInt64.ofInt n ≤ hi) : ((UInt64.ofInt n).toNat : Int) = n := by
  have hcast := toNat_ofInt n
  have hle := UInt64.le_iff_toNat_le.mp h
  omega

/-- The cast of the field at `key` keeps its value. -/
def CastExact (m : Conf) (key : String) : Prop :=
  m.has key → ∀ n, m.getInt key = .ok n → ((UInt64.ofInt n).toNat : Int) = n

/-- A range of the schema makes the cast exact. -/
theorem castExact_of_le {key : String} {default hi : UInt64} (hs : SignedInts m)
    (hhi : hi.toNat < 2 ^ 63) (h : valueD m getSize key default ≤ hi) : CastExact m key := by
  intro hhas n hn
  rw [valueD_eq hhas (getSize_eq_ok.mpr ⟨n, hn, rfl⟩)] at h
  exact toNat_ofInt_of_le (hs key n hn) hhi h

theorem castExact_of_nonneg {key : String} (hs : SignedInts m)
    (h : m.has key → ∀ n, m.getInt key = .ok n → 0 ≤ n) : CastExact m key :=
  fun hhas n hn => toNat_ofInt_of_nonneg (h hhas n hn) (hs key n hn).2

/-- The stored value is the manifest's, also where the default stands in. -/
theorem toNat_valueD {key : String} {default : UInt64} {d : Int} (h : CastExact m key)
    (hd : (default.toNat : Int) = d) :
    ((valueD m getSize key default).toNat : Int) = intD m key d := by
  unfold intD valueD
  split
  · next hhas =>
    cases hget : m.getInt key with
    | ok n => simpa [getSize, hget, Except.map] using h hhas n hget
    | error e => simpa [getSize, hget, Except.map] using hd
  · exact hd

/-! ### Accepted manifests -/

/-- The casts of an accepted manifest are exact: those of seven fields by their ranges, those of the
other three because nothing negative was cast. -/
theorem castExact (hs : SignedInts m) (hvalid : Valid (readConfig m))
    (hnonneg : ∀ key ∈ ["backpressure.low_watermark", "backpressure.high_watermark",
      "backpressure.queue_capacity"], m.has key → ∀ n, m.getInt key = .ok n → 0 ≤ n) :
    ∀ f ∈ sizeFields, CastExact m f.key := by
  simp only [List.forall_mem_cons] at hnonneg
  obtain ⟨hlow, hhigh, hqueue, -⟩ := hnonneg
  simp only [sizeFields, List.forall_mem_cons]
  exact ⟨castExact_of_le hs (by decide) hvalid.bufferCount.2,
    castExact_of_le hs (by decide) hvalid.bufferCapacity.2,
    castExact_of_le hs (by decide) hvalid.maxBufferCount.2,
    castExact_of_le hs (by decide) hvalid.threads.2,
    castExact_of_le hs (by decide) hvalid.depth.2,
    castExact_of_le hs (by decide) hvalid.readTimeout.2,
    castExact_of_le hs (by decide) hvalid.stagingTimeout.2,
    castExact_of_nonneg hs hlow, castExact_of_nonneg hs hhigh, castExact_of_nonneg hs hqueue,
    by simp⟩

/-- The keys whose integers are cast. -/
theorem value_readConfig : ∀ f ∈ sizeFields,
    f.value (readConfig m) = valueD m getSize f.key f.default := by
  simp [sizeFields, readConfig]

/-- `get_int` answers for every field that is cast. -/
theorem exists_getInt
    (hassign : ∀ f ∈ configFields, m.has f.key → ∃ c₁ c₂, f.assign m c₁ = .ok c₂) :
    ∀ f ∈ sizeFields, m.has f.key → ∃ n, m.getInt f.key = .ok n := by
  have hint : ∀ {key : String}, (∃ v, getSize m key = .ok v) → ∃ n, m.getInt key = .ok n := by
    rintro key ⟨v, hv⟩
    obtain ⟨n, hn, -⟩ := getSize_eq_ok.mp hv
    exact ⟨n, hn⟩
  simp only [configFields, List.forall_mem_cons] at hassign
  obtain ⟨h₁, h₂, h₃, h₄, -, -, h₅, h₆, h₇, h₈, h₉, h₁₀, -⟩ := hassign
  simp only [sizeFields, List.forall_mem_cons]
  exact ⟨fun h => hint (exists_of_assign h₁ h), fun h => hint (exists_of_assign h₂ h),
    fun h => hint (exists_of_assign h₃ h), fun h => hint (exists_of_assign h₄ h),
    fun h => hint (exists_of_assign h₅ h), fun h => hint (exists_of_assign h₆ h),
    fun h => hint (exists_of_assign h₇ h), fun h => hint (exists_of_assign h₈ h),
    fun h => hint (exists_of_assign h₉ h), fun h => hint (exists_of_assign h₁₀ h), by simp⟩

/-- A value between two ends, as integers. -/
theorem intD_range {key : String} {default lo hi : UInt64} {d l u : Int} (h : CastExact m key)
    (hrange : lo ≤ valueD m getSize key default ∧ valueD m getSize key default ≤ hi)
    (hd : (default.toNat : Int) = d) (hl : (lo.toNat : Int) = l) (hu : (hi.toNat : Int) = u) :
    l ≤ intD m key d ∧ intD m key d ≤ u := by
  have heq := toNat_valueD h hd
  have hlo := UInt64.le_iff_toNat_le.mp hrange.1
  have hhi := UInt64.le_iff_toNat_le.mp hrange.2
  omega

/-- Where the casts are exact, the configuration is the manifest's. -/
theorem Faithful.of_castExact (hvalid : Valid (readConfig m))
    (hassign : ∀ f ∈ configFields, m.has f.key → ∃ c₁ c₂, f.assign m c₁ = .ok c₂)
    (hcast : ∀ f ∈ sizeFields, CastExact m f.key)
    (hnuma : m.has "worker_pool.numa_domain" →
      ∀ n, m.getInt "worker_pool.numa_domain" = .ok n → -2 ^ 31 ≤ n ∧ n < 2 ^ 31) :
    Faithful m (readConfig m) := by
  have hsizes := exists_getInt hassign
  simp only [configFields, List.forall_mem_cons] at hassign
  obtain ⟨-, -, -, -, hcores, hdomain, -, -, -, -, -, -, -, -, -, hranks, -⟩ := hassign
  have hcasts := hcast
  simp only [sizeFields, List.forall_mem_cons] at hcasts
  obtain ⟨h₁, h₂, h₃, h₄, h₅, h₆, h₇, h₈, h₉, h₁₀, -⟩ := hcasts
  refine
    { sizes := fun f hf hhas => ?_, numaDomain := fun hhas => ?_, cpuCores := fun hhas => ?_,
      ioRanks := fun hhas => ?_, ranges := ?_, ceiling := ?_, watermarks := fun hset => ?_ }
  -- a size, which `static_cast<size_t>` leaves alone
  · obtain ⟨n, hn⟩ := hsizes f hf hhas
    refine ⟨n, hn, ?_⟩
    rw [value_readConfig f hf, valueD_eq hhas (getSize_eq_ok.mpr ⟨n, hn, rfl⟩)]
    exact hcast f hf hhas n hn
  · -- the one field that is converted to `int`
    obtain ⟨v, hv⟩ := exists_of_assign hdomain hhas
    obtain ⟨n, hn, rfl⟩ := getNuma_eq_ok.mp hv
    obtain ⟨hlo, hhi⟩ := hnuma hhas n hn
    exact ⟨n, .ofInt n, hn, valueD_eq hhas hv none, Int32.toInt_ofInt_of_le hlo hhi⟩
  -- the lists are taken over
  · obtain ⟨v, hv⟩ := exists_of_assign hcores hhas
    rw [hv, readConfig]
    exact congrArg _ (valueD_eq hhas hv []).symm
  · obtain ⟨v, hv⟩ := exists_of_assign hranks hhas
    rw [hv, readConfig]
    exact congrArg _ (valueD_eq hhas hv []).symm
  -- each range was checked by `validate`, on the stored value
  · simp only [documentedRanges, List.forall_mem_cons]
    exact ⟨intD_range h₁ hvalid.bufferCount rfl rfl rfl,
      intD_range h₂ hvalid.bufferCapacity rfl rfl rfl, intD_range h₄ hvalid.threads rfl rfl rfl,
      intD_range h₅ hvalid.depth rfl rfl rfl, intD_range h₆ hvalid.readTimeout rfl rfl rfl,
      intD_range h₇ hvalid.stagingTimeout rfl rfl rfl, by simp⟩
  · -- the lower end is the configured count
    have hcount : ((valueD m getSize "staging_pool.buffer_count" 16).toNat : Int) =
        intD m "staging_pool.buffer_count" 16 := toNat_valueD h₁ rfl
    exact intD_range h₃ hvalid.maxBufferCount rfl hcount rfl
  · -- the watermarks are compared as they are stored
    have hlow : ((valueD m getSize "backpressure.low_watermark" 0).toNat : Int) =
        intD m "backpressure.low_watermark" 0 := toNat_valueD h₈ rfl
    have hhigh : ((valueD m getSize "backpressure.high_watermark" 0).toNat : Int) =
        intD m "backpressure.high_watermark" 0 := toNat_valueD h₉ rfl
    have hqueue : ((valueD m getSize "backpressure.queue_capacity" 1024).toNat : Int) =
        intD m "backpressure.queue_capacity" 1024 := toNat_valueD h₁₀ rfl
    have hpos : 0 < (readConfig m).backpressure.highWatermark := by
      rw [UInt64.lt_iff_toNat_lt]
      change 0 < (valueD m getSize "backpressure.high_watermark" 0).toNat
      omega
    obtain ⟨hlt, hle⟩ := hvalid.watermarks hpos
    have hlt' := UInt64.lt_iff_toNat_lt.mp hlt
    have hle' := UInt64.le_iff_toNat_le.mp hle
    simp only [readConfig] at hlt' hle'
    omega

/-- A configuration that is the manifest's has only numbers that fit. -/
theorem Faithful.representable (h : Faithful m c) : Representable m where
  nonneg := by
    have hnonneg : ∀ f ∈ sizeFields, m.has f.key → ∀ n, m.getInt f.key = .ok n → 0 ≤ n := by
      intro f hf hhas n hn
      obtain ⟨k, hk, heq⟩ := h.sizes f hf hhas
      obtain rfl : k = n := Except.ok.inj (hk.symm.trans hn)
      omega
    simp only [sizeFields, List.forall_mem_cons] at hnonneg
    obtain ⟨-, -, -, -, -, -, -, hlow, hhigh, hqueue, -⟩ := hnonneg
    simp only [List.forall_mem_cons]
    exact ⟨hlow, hhigh, hqueue, by simp⟩
  numaDomain hhas n hn := by
    obtain ⟨k, d, hk, -, heq⟩ := h.numaDomain hhas
    obtain rfl : k = n := Except.ok.inj (hk.symm.trans hn)
    exact heq ▸ ⟨d.le_toInt, d.toInt_lt⟩

/-- **Accepted manifests are represented faithfully**, for every document and every previous state
of the error, exactly when none of the two watermarks and the queue capacity is negative in the
manifest and `numa_domain` is an `int`. -/
theorem accepted_faithful_iff (m : Conf) (hs : SignedInts m) (c : Config)
    (error error' : ValidationError) (h : populateFromConf m error = (.ok, c, error')) :
    Faithful m c ↔ Representable m := by
  obtain ⟨rfl, hvalid, hassign⟩ := populateFromConf_ok h
  refine ⟨Faithful.representable, fun hrep => ?_⟩
  exact .of_castExact hvalid hassign (castExact hs hvalid hrep.nonneg) hrep.numaDomain

/-- A document of integers, as CONF would answer for it. -/
def intDocument (entries : List (String × Int)) : Conf where
  has key := (entries.lookup key).isSome
  getInt key :=
    match entries.lookup key with
    | some n => .ok n
    | none => .error ⟨.keyNotFound, key⟩
  getString key := .error ⟨.typeMismatch, key⟩
  getIntList key := .error ⟨.typeMismatch, key⟩
  getStringList key := .error ⟨.typeMismatch, key⟩
  getStringOr _ default := .ok default

/-- The integers of the document are of 64 bits. -/
theorem signedInts_intDocument {entries : List (String × Int)}
    (h : ∀ e ∈ entries, -2 ^ 63 ≤ e.2 ∧ e.2 < 2 ^ 63) : SignedInts (intDocument entries) := by
  intro key n hn
  simp only [intDocument] at hn
  split at hn
  · next k hk =>
    obtain rfl : k = n := Except.ok.inj hn
    obtain ⟨l₁, l₂, rfl, -⟩ := List.lookup_eq_some_iff.mp hk
    exact h (key, k) (by simp)
  · cases hn

/-- Watermarks and a capacity in order. -/
def watermarked : Conf :=
  intDocument [("backpressure.low_watermark", 2), ("backpressure.high_watermark", 8),
    ("backpressure.queue_capacity", 16)]

theorem accepted_faithful_watermarked : ∃ c,
    populateFromConf watermarked {} = (.ok, c, {}) ∧
      (Faithful watermarked c ↔ Representable watermarked) :=
  ⟨_, rfl, accepted_faithful_iff watermarked (signedInts_intDocument (by decide)) _ {} {} rfl⟩

/-- Backpressure is off, and the low watermark is negative. -/
def negativeWatermark : Conf :=
  intDocument [("backpressure.low_watermark", -1), ("backpressure.high_watermark", 0)]

/-- **A negative watermark is accepted**, and stored as `2 ^ 64 - 1`. -/
theorem negative_watermark_accepted : ∃ c,
    SignedInts negativeWatermark ∧ populateFromConf negativeWatermark {} = (.ok, c, {}) ∧
      c.backpressure.lowWatermark = 18446744073709551615 ∧ ¬ Faithful negativeWatermark c := by
  refine ⟨_, signedInts_intDocument (by decide), rfl, rfl, fun h => ?_⟩
  have := h.representable.nonneg "backpressure.low_watermark" (by simp) rfl (-1) rfl
  omega

end ConfigLoader

end Amio
