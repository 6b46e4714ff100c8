import Amio.Config.Loader

/-!
# What the configuration loader accepts

`Valid` says in one structure what the rules of `validate` check, `validate_ok_iff`. A configuration
that `populate_from_conf` accepts is `readConfig`: every field is the manifest's if the manifest has
it and the default otherwise, and no accessor that was called threw (`populateFromConf_ok`).
-/

namespace Amio

namespace ConfigLoader

variable {c : Config} {m : Conf} {error error' : ValidationError}

/-! ### The rules -/

theorem firstFailure_eq_none {rs : List Rule} :
    firstFailure rs c = none ↔ ∀ r ∈ rs, r.check c = none := by
  simp [firstFailure, List.findSome?_eq_none_iff]

/-- The failure is one of a rule. -/
theorem firstFailure_eq_some {rs : List Rule} {field message : String} {code : AmioErr}
    (h : firstFailure rs c = some (field, code, message)) :
    ∃ r ∈ rs, r.field = field ∧ r.check c = some (code, message) := by
  obtain ⟨r, hr, hcheck⟩ := List.exists_of_findSome?_eq_some h
  obtain ⟨f, hf, heq⟩ := Option.map_eq_some_iff.mp hcheck
  simp only [Prod.mk.injEq] at heq
  obtain ⟨rfl, rfl⟩ := heq
  exact ⟨r, hr, rfl, hf⟩

/-- No rule fails with the status of success. -/
theorem code_ne_ok {r : Rule} (hr : r ∈ rules) {code : AmioErr} {message : String}
    (h : r.check c = some (code, message)) : code ≠ .ok := by
  simp only [rules, codecRules, List.cons_append, List.nil_append, List.mem_cons, List.not_mem_nil,
    or_false] at hr
  rcases hr with rfl | rfl | rfl | rfl | rfl | rfl | rfl | rfl | rfl | rfl | rfl | rfl
  -- the loop over the allow-list
  case inr.inr.inr.inr.inr.inr.inr.inr.inr.inl =>
    obtain ⟨codec, -, heq⟩ := Option.map_eq_some_iff.mp h
    simp only [Prod.mk.injEq] at heq
    rw [← heq.1]
    decide
  all_goals
    -- the other rules are a test each
    obtain ⟨-, heq⟩ := Option.ite_none_right_eq_some.mp h
    simp only [Option.some.injEq, Prod.mk.injEq] at heq
    rw [← heq.1]
    decide

/-- `validate` accepts when no rule fails. -/
theorem validate_eq_ok : (validate c error).1 = .ok ↔ firstFailure rules c = none := by
  unfold validate
  split
  · next h => simp [h]
  · next field code message h =>
    obtain ⟨r, hr, -, hcheck⟩ := firstFailure_eq_some h
    simpa [h] using code_ne_ok hr hcheck

/-- A failed validation reports the first rule that fails. -/
theorem firstFailure_of_validate {code : AmioErr} (h : validate c error = (code, error'))
    (hcode : code ≠ .ok) :
    firstFailure rules c = some (error'.fieldPath, code, error'.message) := by
  unfold validate at h
  split at h
  · exact absurd (congrArg Prod.fst h).symm hcode
  · next field code' message hfail =>
    simp only [Prod.mk.injEq] at h
    obtain ⟨rfl, rfl⟩ := h
    exact hfail

/-- The field that a failed validation names is a key of the manifest, `field_mem_keys`. -/
theorem validate_names_field {code : AmioErr} (h : validate c error = (code, error'))
    (hcode : code ≠ .ok) :
    ∃ r ∈ rules, r.field = error'.fieldPath ∧ r.check c = some (code, error'.message) :=
  firstFailure_eq_some (firstFailure_of_validate h hcode)

/-- Every rule names a key of the schema. -/
theorem field_mem_keys : ∀ r ∈ rules, r.field ∈ configFields.map ConfigField.key := by
  decide

/-- What the schema asks of a configuration. -/
structure Valid (c : Config) : Prop where
  bufferCount : kMinBufferCount ≤ c.stagingPool.bufferCount ∧
    c.stagingPool.bufferCount ≤ kMaxBufferCount
  bufferCapacity : kMinBufferCapacity ≤ c.stagingPool.bufferCapacityBytes ∧
    c.stagingPool.bufferCapacityBytes ≤ kMaxBufferCapacity
  maxBufferCount : c.stagingPool.bufferCount ≤ c.stagingPool.maxBufferCount ∧
    c.stagingPool.maxBufferCount ≤ kMaxBufferCount
  threads : kMinThreads ≤ c.workerPool.threads ∧ c.workerPool.threads ≤ kMaxThreads
  depth : kMinPrefetchDepth ≤ c.prefetch.depth ∧ c.prefetch.depth ≤ kMaxPrefetchDepth
  readTimeout : kMinReadTimeoutS ≤ c.prefetch.readTimeoutS ∧
    c.prefetch.readTimeoutS ≤ kMaxReadTimeoutS
  stagingTimeout : kMinStagingTimeoutMs ≤ c.stagingTimeoutMs ∧
    c.stagingTimeoutMs ≤ kMaxStagingTimeoutMs
  watermarks : 0 < c.backpressure.highWatermark →
    c.backpressure.lowWatermark < c.backpressure.highWatermark ∧
      c.backpressure.highWatermark ≤ c.backpressure.queueCapacity
  allowList : ∀ codec ∈ c.codec.losslessAllowList, isValidCodec codec
  activeCodec : c.codec.activeCodec ≠ "" → isValidCodec c.codec.activeCodec ∧
    (c.codec.losslessAllowList ≠ [] → c.codec.activeCodec ∈ c.codec.losslessAllowList)

@[simp] theorem check_rangeRule {group name : String} {lo hi : UInt64} {value : Config → UInt64} :
    (rangeRule group name lo hi value).check c = none ↔ lo ≤ value c ∧ value c ≤ hi := by
  simp [rangeRule, not_or, UInt64.not_lt]

@[simp] theorem check_maxBufferCountRule : maxBufferCountRule.check c = none ↔
    c.stagingPool.bufferCount ≤ c.stagingPool.maxBufferCount ∧
      c.stagingPool.maxBufferCount ≤ kMaxBufferCount := by
  simp [maxBufferCountRule, UInt64.not_lt]

/-- What the two rules of the watermarks ask together. -/
theorem check_watermarkRules :
    lowWatermarkRule.check c = none ∧ highWatermarkRule.check c = none ↔
      (0 < c.backpressure.highWatermark →
        c.backpressure.lowWatermark < c.backpressure.highWatermark ∧
          c.backpressure.highWatermark ≤ c.backpressure.queueCapacity) := by
  simp only [lowWatermarkRule, highWatermarkRule, ite_eq_right_iff, reduceCtorEq, imp_false,
    not_and, UInt64.not_le, UInt64.not_lt]
  exact ⟨fun h hpos => ⟨h.1 hpos, h.2 hpos⟩,
    fun h => ⟨fun hpos => (h hpos).1, fun hpos => (h hpos).2⟩⟩

@[simp] theorem check_allowListRule : allowListRule.check c = none ↔
    ∀ codec ∈ c.codec.losslessAllowList, isValidCodec codec := by
  simp [allowListRule]

/-- What the two rules of the active codec ask together. -/
theorem check_activeCodecRules :
    activeCodecRule.check c = none ∧ onAllowListRule.check c = none ↔
      (c.codec.activeCodec ≠ "" → isValidCodec c.codec.activeCodec ∧
        (c.codec.losslessAllowList ≠ [] → c.codec.activeCodec ∈ c.codec.losslessAllowList)) := by
  simp only [activeCodecRule, onAllowListRule, ite_eq_right_iff, reduceCtorEq, imp_false, not_and,
    not_not]
  exact ⟨fun h hne => ⟨h.1 hne, h.2 hne⟩, fun h => ⟨fun hne => (h hne).1, fun hne => (h hne).2⟩⟩

/-- **What `validate` accepts.** -/
theorem validate_ok_iff : (validate c error).1 = .ok ↔ Valid c := by
  rw [validate_eq_ok, firstFailure_eq_none]
  simp only [rules, codecRules, List.cons_append, List.nil_append, List.forall_mem_cons,
    List.not_mem_nil, false_imp_iff, implies_true, and_true, bufferCountRule, bufferCapacityRule,
    threadsRule, depthRule, readTimeoutRule, stagingTimeoutRule, check_rangeRule,
    check_maxBufferCountRule, check_allowListRule, check_activeCodecRules]
  constructor
  · rintro ⟨h₁, h₂, h₃, h₄, h₅, h₆, h₇, hlow, hhigh, hlist, hactive⟩
    exact ⟨h₁, h₂, h₃, h₄, h₅, h₆, h₇, check_watermarkRules.mp ⟨hlow, hhigh⟩, hlist, hactive⟩
  · intro h
    obtain ⟨hlow, hhigh⟩ := check_watermarkRules.mpr h.watermarks
    exact ⟨h.bufferCount, h.bufferCapacity, h.maxBufferCount, h.threads, h.depth, h.readTimeout,
      h.stagingTimeout, hlow, hhigh, h.allowList, h.activeCodec⟩

/-- The defaults pass. -/
theorem valid_default : Valid {} :=
  validate_ok_iff.mp (show (validate {} {}).1 = .ok by decide)

/-- A success leaves the error as it was. -/
theorem validate_error_of_ok (h : Valid c) : validate c error = (.ok, error) := by
  have hnone := validate_eq_ok.mp (validate_ok_iff.mpr h : (validate c error).1 = .ok)
  simp [validate, hnone]

/-! ### Reading the manifest -/

/-- A cast to `size_t` wraps around. -/
theorem toNat_ofInt (n : Int) : ((UInt64.ofInt n).toNat : Int) = n % 2 ^ 64 := by
  rw [UInt64.ofInt, UInt64.toNat_ofNat_of_lt']
  · exact Int.toNat_of_nonneg (Int.emod_nonneg n (by decide))
  · change (n % 2 ^ 64).toNat < 2 ^ 64
    omega

/-- The value at `key`, if the manifest has it. -/
def valueD {α : Type} (m : Conf) (get : Conf → String → Except ConfError α) (key : String)
    (default : α) : α :=
  if m.has key then
    match get m key with
    | .ok a => a
    | .error _ => default
  else default

/-- The configuration that a manifest describes. -/
def readConfig (m : Conf) : Config where
  stagingPool :=
    { bufferCount := valueD m getSize "staging_pool.buffer_count" 16
      bufferCapacityBytes := valueD m getSize "staging_pool.buffer_capacity_bytes" 1048576
      maxBufferCount := valueD m getSize "staging_pool.max_buffer_count" 4096 }
  workerPool :=
    { threads := valueD m getSize "worker_pool.threads" 1
      cpuCores := valueD m Conf.getIntList "worker_pool.cpu_cores" []
      numaDomain := valueD m getNuma "worker_pool.numa_domain" none }
  prefetch :=
    { depth := valueD m getSize "prefetch.depth" 4
      readTimeoutS := valueD m getSize "prefetch.read_timeout_s" 60 }
  stagingTimeoutMs := valueD m getSize "staging_timeout_ms" 5000
  backpressure :=
    { lowWatermark := valueD m getSize "backpressure.low_watermark" 0
      highWatermark := valueD m getSize "backpressure.high_watermark" 0
      queueCapacity := valueD m getSize "backpressure.queue_capacity" 1024 }
  backend := valueD m Conf.getString "backend" ""
  codec :=
    { activeCodec := valueD m Conf.getString "codec.active_codec" ""
      losslessAllowList := valueD m Conf.getStringList "codec.lossless_allow_list" [] }
  ioRanks := valueD m Conf.getIntList "io_ranks" []

/-- The manifest has `v` at `key`, or nothing there and `v` is the default. -/
def Gives {α : Type} (m : Conf) (get : Conf → String → Except ConfError α) (key : String)
    (default v : α) : Prop :=
  (m.has key = false ∧ v = default) ∨ (m.has key = true ∧ get m key = .ok v)

/-- One turn of the `try` block: the field is set to the manifest's value, or keeps its own. -/
theorem readFields_step {α : Type} {key : String} {get : Conf → String → Except ConfError α}
    {set : α → Config → Config} {fs : List ConfigField} {c : Config} {v : α} (value : Config → α)
    (hset : ∀ c, set (value c) c = c) (h : Gives m get key (value c) v) :
    readFields m (configField key get set :: fs) c = readFields m fs (set v c) := by
  have hkey : (configField key get set).key = key := rfl
  rw [readFields, hkey]
  rcases h with ⟨hhas, rfl⟩ | ⟨hhas, hget⟩
  · rw [if_neg (by simp [hhas]), hset]
  · rw [if_pos hhas]
    simp [configField, hget, Except.map]

/-- Reading the fields one after the other. -/
theorem readFields_cons {α : Type} {key : String} {get : Conf → String → Except ConfError α}
    {set : α → Config → Config} {fs : List ConfigField} {c c' : Config} (value : Config → α)
    (hset : ∀ c, set (value c) c = c)
    (h : readFields m (configField key get set :: fs) c = (c', none)) :
    readFields m fs (set (valueD m get key (value c)) c) = (c', none) := by
  -- the accessor did not throw
  have hgives : Gives m get key (value c) (valueD m get key (value c)) := by
    unfold Gives valueD
    unfold readFields at h
    split at h
    · next hhas =>
      have hhas' : m.has key = true := hhas
      cases hget : get m key with
      | ok a => simp [hhas']
      | error e => simp [configField, hget, Except.map] at h
    · next hhas =>
      have hhas' : m.has key = false := by simpa [configField] using hhas
      simp [hhas']
  rw [← readFields_step value hset hgives, h]

/-- Every accessor that is called comes back with a value. -/
theorem assign_of_readFields {fs : List ConfigField} {c c' : Config}
    (h : readFields m fs c = (c', none)) :
    ∀ f ∈ fs, m.has f.key → ∃ c₁ c₂, f.assign m c₁ = .ok c₂ := by
  induction fs generalizing c with
  | nil => simp
  | cons f fs ih =>
    unfold readFields at h
    split at h
    · next hhas =>
      split at h
      · next c₂ hassign => exact List.forall_mem_cons.mpr ⟨fun _ => ⟨c, c₂, hassign⟩, ih h⟩
      · cases h
    · next hhas => exact List.forall_mem_cons.mpr ⟨fun hhas' => absurd hhas' hhas, ih h⟩

/-- If no key fails, the configuration is the one that was read. -/
theorem readFields_eq (h : readFields m configFields {} = (c, none)) : c = readConfig m := by
  -- the fields one after another, each with the default that it starts from
  replace h := readFields_cons (·.stagingPool.bufferCount) (fun _ => rfl) h
  replace h := readFields_cons (·.stagingPool.bufferCapacityBytes) (fun _ => rfl) h
  replace h := readFields_cons (·.stagingPool.maxBufferCount) (fun _ => rfl) h
  replace h := readFields_cons (·.workerPool.threads) (fun _ => rfl) h
  replace h := readFields_cons (·.workerPool.cpuCores) (fun _ => rfl) h
  replace h := readFields_cons (·.workerPool.numaDomain) (fun _ => rfl) h
  replace h := readFields_cons (·.prefetch.depth) (fun _ => rfl) h
  replace h := readFields_cons (·.prefetch.readTimeoutS) (fun _ => rfl) h
  replace h := readFields_cons (·.stagingTimeoutMs) (fun _ => rfl) h
  replace h := readFields_cons (·.backpressure.lowWatermark) (fun _ => rfl) h
  replace h := readFields_cons (·.backpressure.highWatermark) (fun _ => rfl) h
  replace h := readFields_cons (·.backpressure.queueCapacity) (fun _ => rfl) h
  replace h := readFields_cons (·.backend) (fun _ => rfl) h
  replace h := readFields_cons (·.codec.activeCodec) (fun _ => rfl) h
  replace h := readFields_cons (·.codec.losslessAllowList) (fun _ => rfl) h
  replace h := readFields_cons (·.ioRanks) (fun _ => rfl) h
  exact (congrArg Prod.fst h).symm

/-- **What `populate_from_conf` comes back with**: the status of `validate` on what the manifest
describes, unless an accessor throws. -/
theorem populateFromConf_cases {code : AmioErr} (h : populateFromConf m error = (code, c, error')) :
    (c = readConfig m ∧ validate c error = (code, error') ∧
      ∀ f ∈ configFields, m.has f.key → ∃ c₁ c₂, f.assign m c₁ = .ok c₂) ∨
    code = .manifestInvalid := by
  unfold populateFromConf at h
  split at h
  · next c₀ hread =>
    simp only [Prod.mk.injEq] at h
    obtain ⟨hcode, rfl, herror⟩ := h
    exact .inl ⟨readFields_eq hread, Prod.ext hcode herror, assign_of_readFields hread⟩
  · exact .inr (congrArg Prod.fst h).symm

/-- **What `populate_from_conf` accepts.** -/
theorem populateFromConf_ok (h : populateFromConf m error = (.ok, c, error')) :
    c = readConfig m ∧ Valid c ∧
      ∀ f ∈ configFields, m.has f.key → ∃ c₁ c₂, f.assign m c₁ = .ok c₂ := by
  rcases populateFromConf_cases h with ⟨hc, hvalidate, hassign⟩ | hcode
  · exact ⟨hc, validate_ok_iff.mp (congrArg Prod.fst hvalidate), hassign⟩
  · cases hcode

/-- The accessor of a field that is there came back with a value. -/
theorem exists_of_assign {α : Type} {key : String} {get : Conf → String → Except ConfError α}
    {set : α → Config → Config}
    (h : m.has (configField key get set).key →
      ∃ c₁ c₂, (configField key get set).assign m c₁ = .ok c₂)
    (hhas : m.has key) : ∃ a, get m key = .ok a := by
  obtain ⟨c₁, c₂, hok⟩ := h hhas
  cases hget : get m key with
  | ok a => exact ⟨a, rfl⟩
  | error e => simp [configField, hget, Except.map] at hok

/-- The value at a key that is there. -/
theorem valueD_eq {α : Type} {get : Conf → String → Except ConfError α} {key : String} {a : α}
    (hhas : m.has key) (h : get m key = .ok a) (default : α) : valueD m get key default = a := by
  simp [valueD, hhas, h]

/-- `get_int` answers where its value is cast. -/
theorem getSize_eq_ok {key : String} {v : UInt64} :
    getSize m key = .ok v ↔ ∃ n, m.getInt key = .ok n ∧ v = .ofInt n := by
  cases hget : m.getInt key with
  | ok n => simp [getSize, hget, Except.map, eq_comm]
  | error e => simp [getSize, hget, Except.map]

/-- The NUMA domain is cast to `int`. -/
theorem getNuma_eq_ok {key : String} {v : Option Int32} :
    getNuma m key = .ok v ↔ ∃ n, m.getInt key = .ok n ∧ v = some (.ofInt n) := by
  cases hget : m.getInt key with
  | ok n => simp [getNuma, hget, Except.map, eq_comm]
  | error e => simp [getNuma, hget, Except.map]

end ConfigLoader

end Amio
