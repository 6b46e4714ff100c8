import Amio.Basic
import Mathlib.Data.List.Basic

/-!
# The configuration loader

`config/config_loader.{hpp,cpp}`: the manifest is read field by field through the typed accessors of
HELM::CONF (`populate_from_conf`), checked against the schema (`validate`), and written back as YAML
(`serialize`).

CONF is not part of the repository. A parsed document is what its accessors answer, `Conf`, and the
two ways to parse one are `ConfLibrary`; the results say what they rely on. `get_int` answers with
an integer here, whatever integer type it is declared with; `get_int_list` is assigned to
`std::vector<int>` without a conversion, so its elements are `int`s. A `std::size_t` is a `UInt64`
and an `int` an `Int32`, so the casts of the source are the wrapping conversions of these types.
-/

namespace Amio

/-! ### The configuration -/

structure StagingPoolConfig where
  bufferCount : UInt64 := 16
  bufferCapacityBytes : UInt64 := 1048576
  maxBufferCount : UInt64 := 4096
  deriving DecidableEq, Repr

structure WorkerPoolCfg where
  threads : UInt64 := 1
  cpuCores : List Int32 := []
  numaDomain : Option Int32 := none
  deriving DecidableEq, Repr

structure PrefetchConfig where
  depth : UInt64 := 4
  readTimeoutS : UInt64 := 60
  deriving DecidableEq, Repr

structure BackpressureCfg where
  lowWatermark : UInt64 := 0
  highWatermark : UInt64 := 0
  queueCapacity : UInt64 := 1024
  deriving DecidableEq, Repr

structure CodecConfig where
  losslessAllowList : List String := []
  activeCodec : String := ""
  deriving DecidableEq, Repr

/-- `Config`, with the defaults of the source. -/
structure Config where
  stagingPool : StagingPoolConfig := {}
  workerPool : WorkerPoolCfg := {}
  prefetch : PrefetchConfig := {}
  stagingTimeoutMs : UInt64 := 5000
  backpressure : BackpressureCfg := {}
  backend : String := ""
  codec : CodecConfig := {}
  ioRanks : List Int32 := []
  deriving DecidableEq, Repr

structure ValidationError where
  fieldPath : String := ""
  message : String := ""
  line : Int := 0
  deriving DecidableEq, Repr

namespace ConfigLoader

abbrev kMinBufferCount : UInt64 := 1
abbrev kMaxBufferCount : UInt64 := 4096
abbrev kMinBufferCapacity : UInt64 := 1
abbrev kMaxBufferCapacity : UInt64 := 1073741824
abbrev kMinThreads : UInt64 := 1
abbrev kMaxThreads : UInt64 := 256
abbrev kMinPrefetchDepth : UInt64 := 1
abbrev kMaxPrefetchDepth : UInt64 := 1024
abbrev kMinReadTimeoutS : UInt64 := 1
abbrev kMaxReadTimeoutS : UInt64 := 3600
abbrev kMinStagingTimeoutMs : UInt64 := 1
abbrev kMaxStagingTimeoutMs : UInt64 := 60000

/-- `valid_codecs`. -/
def validCodecs : List String := ["blosc", "zstandard", "libaec", "lossless_jpeg2000"]

/-- `is_valid_codec`. -/
def isValidCodec (name : String) : Bool := validCodecs.contains name

/-! ### `validate` -/

/-- One check of `validate`: the field it reports, and the status and the message when it fails. -/
structure Rule where
  field : String
  check : Config → Option (AmioErr × String)

/-- The check of a numeric range. -/
def rangeRule (group name : String) (lo hi : UInt64) (value : Config → UInt64) : Rule where
  field := group ++ name
  check c :=
    if value c < lo ∨ hi < value c then
      some (.manifestInvalid, name ++ " must be in [" ++ toString lo ++ ", " ++ toString hi ++
        "], got " ++ toString (value c))
    else none

def bufferCountRule : Rule :=
  rangeRule "staging_pool." "buffer_count" kMinBufferCount kMaxBufferCount
    (·.stagingPool.bufferCount)

def bufferCapacityRule : Rule :=
  rangeRule "staging_pool." "buffer_capacity_bytes" kMinBufferCapacity kMaxBufferCapacity
    (·.stagingPool.bufferCapacityBytes)

/-- The lower end of this range is the configured count. -/
def maxBufferCountRule : Rule where
  field := "staging_pool.max_buffer_count"
  check c :=
    if c.stagingPool.maxBufferCount < c.stagingPool.bufferCount ∨
        kMaxBufferCount < c.stagingPool.maxBufferCount then
      some (.manifestInvalid, "max_buffer_count must be in [buffer_count, 4096], got " ++
        toString c.stagingPool.maxBufferCount ++ " with buffer_count " ++
        toString c.stagingPool.bufferCount)
    else none

def threadsRule : Rule :=
  rangeRule "worker_pool." "threads" kMinThreads kMaxThreads (·.workerPool.threads)

def depthRule : Rule :=
  rangeRule "prefetch." "depth" kMinPrefetchDepth kMaxPrefetchDepth (·.prefetch.depth)

def readTimeoutRule : Rule :=
  rangeRule "prefetch." "read_timeout_s" kMinReadTimeoutS kMaxReadTimeoutS (·.prefetch.readTimeoutS)

def stagingTimeoutRule : Rule :=
  rangeRule "" "staging_timeout_ms" kMinStagingTimeoutMs kMaxStagingTimeoutMs (·.stagingTimeoutMs)

def lowWatermarkRule : Rule where
  field := "backpressure.low_watermark"
  check c :=
    if 0 < c.backpressure.highWatermark ∧
        c.backpressure.highWatermark ≤ c.backpressure.lowWatermark then
      some (.manifestInvalid, "low_watermark must be < high_watermark")
    else none

def highWatermarkRule : Rule where
  field := "backpressure.high_watermark"
  check c :=
    if 0 < c.backpressure.highWatermark ∧
        c.backpressure.queueCapacity < c.backpressure.highWatermark then
      some (.manifestInvalid, "high_watermark must be <= queue_capacity")
    else none

/-- The loop over the allow-list reports its first unrecognised entry. -/
def allowListRule : Rule where
  field := "codec.lossless_allow_list"
  check c :=
    (c.codec.losslessAllowList.find? fun codec => !isValidCodec codec).map fun codec =>
      (.lossyCodecForbidden, "codec '" ++ codec ++ "' is not a recognized lossless codec")

def activeCodecRule : Rule where
  field := "codec.active_codec"
  check c :=
    if c.codec.activeCodec ≠ "" ∧ ¬ isValidCodec c.codec.activeCodec then
      some (.lossyCodecForbidden,
        "active codec '" ++ c.codec.activeCodec ++ "' is not a recognized lossless codec")
    else none

/-- An empty allow-list is not consulted. -/
def onAllowListRule : Rule where
  field := "codec.active_codec"
  check c :=
    -- an empty allow-list is not consulted
    if c.codec.activeCodec ≠ "" ∧ c.codec.losslessAllowList ≠ [] ∧
        c.codec.activeCodec ∉ c.codec.losslessAllowList then
      some (.lossyCodecForbidden, "active codec '" ++ c.codec.activeCodec ++
        "' is not on the manifest's lossless_allow_list")
    else none

/-- The codec rules, which come last. -/
def codecRules : List Rule := [allowListRule, activeCodecRule, onAllowListRule]

/-- The rules, in the order of the source. -/
def rules : List Rule :=
  [bufferCountRule, bufferCapacityRule, maxBufferCountRule, threadsRule, depthRule, readTimeoutRule,
    stagingTimeoutRule, lowWatermarkRule, highWatermarkRule] ++ codecRules

/-- The first rule of a list that fails. -/
def firstFailure (rs : List Rule) (c : Config) : Option (String × AmioErr × String) :=
  rs.findSome? fun r => (r.check c).map fun f => (r.field, f)

/-- `validate`. `line` is not assigned. -/
def validate (c : Config) (error : ValidationError) : AmioErr × ValidationError :=
  match firstFailure rules c with
  | none => (.ok, error)
  | some (field, code, message) => (code, { error with fieldPath := field, message := message })

end ConfigLoader

/-! ### CONF -/

/-- `conf::Error_Code`, as far as it is told apart. -/
inductive ConfErrorCode
  | keyNotFound
  | typeMismatch
  | fileNotFound
  | parseError
  | other
  deriving DecidableEq, Repr

/-- `conf::Conf_Error`. -/
structure ConfError where
  code : ConfErrorCode
  what : String
  deriving DecidableEq, Repr

/-- `conf::Config`: what the accessors answer for a dotted path. -/
structure Conf where
  has : String → Bool
  getInt : String → Except ConfError Int
  getString : String → Except ConfError String
  getIntList : String → Except ConfError (List Int32)
  getStringList : String → Except ConfError (List String)
  /-- `get_or<std::string>`. -/
  getStringOr : String → String → Except ConfError String

/-- The ways to parse a document. -/
structure ConfLibrary where
  fromFile : String → Except ConfError Conf
  fromString : String → Except ConfError Conf

namespace ConfigLoader

/-! ### `populate_from_conf` -/

/-- A field of the manifest: its key, and its assignment to the configuration when the key is
there. -/
structure ConfigField where
  key : String
  assign : Conf → Config → Except ConfError Config

/-- The field read by the accessor `get` and assigned by `set`. -/
def configField {α : Type} (key : String) (get : Conf → String → Except ConfError α)
    (set : α → Config → Config) : ConfigField where
  key := key
  assign m c := (get m key).map fun a => set a c

/-- `static_cast<std::size_t>(manifest.get_int(key))`. -/
def getSize (m : Conf) (key : String) : Except ConfError UInt64 := (m.getInt key).map .ofInt

/-- The conversion of `get_int` to `std::optional<int>`. -/
def getNuma (m : Conf) (key : String) : Except ConfError (Option Int32) :=
  (m.getInt key).map fun n => some (.ofInt n)

/-- The fields, in the order of the source. -/
def configFields : List ConfigField :=
  [configField "staging_pool.buffer_count" getSize fun v c =>
      { c with stagingPool.bufferCount := v },
    configField "staging_pool.buffer_capacity_bytes" getSize fun v c =>
      { c with stagingPool.bufferCapacityBytes := v },
    configField "staging_pool.max_buffer_count" getSize fun v c =>
      { c with stagingPool.maxBufferCount := v },
    configField "worker_pool.threads" getSize fun v c => { c with workerPool.threads := v },
    configField "worker_pool.cpu_cores" Conf.getIntList fun v c =>
      { c with workerPool.cpuCores := v },
    configField "worker_pool.numa_domain" getNuma fun v c => { c with workerPool.numaDomain := v },
    configField "prefetch.depth" getSize fun v c => { c with prefetch.depth := v },
    configField "prefetch.read_timeout_s" getSize fun v c => { c with prefetch.readTimeoutS := v },
    configField "staging_timeout_ms" getSize fun v c => { c with stagingTimeoutMs := v },
    configField "backpressure.low_watermark" getSize fun v c =>
      { c with backpressure.lowWatermark := v },
    configField "backpressure.high_watermark" getSize fun v c =>
      { c with backpressure.highWatermark := v },
    configField "backpressure.queue_capacity" getSize fun v c =>
      { c with backpressure.queueCapacity := v },
    configField "backend" Conf.getString fun v c => { c with backend := v },
    configField "codec.active_codec" Conf.getString fun v c => { c with codec.activeCodec := v },
    configField "codec.lossless_allow_list" Conf.getStringList fun v c =>
      { c with codec.losslessAllowList := v },
    configField "io_ranks" Conf.getIntList fun v c => { c with ioRanks := v }]

/-- The `try` block: an exception leaves the fields that were read before it. -/
def readFields (m : Conf) : List ConfigField → Config → Config × Option (String × ConfError)
  | [], c => (c, none)
  | f :: fs, c =>
    if m.has f.key then
      match f.assign m c with
      | .ok c' => readFields m fs c'
      -- the first key that fails ends the reading
      | .error e => (c, some (f.key, e))
    -- the default stays
    else readFields m fs c

/-- The message that the `catch` block builds. -/
def confMessage (key : String) (e : ConfError) : String :=
  match e.code with
  | .keyNotFound => "required key not found: " ++ key
  | .typeMismatch => "type mismatch at '" ++ key ++ "': " ++ e.what
  | _ => e.what

/-- `populate_from_conf`. -/
def populateFromConf (m : Conf) (error : ValidationError) : AmioErr × Config × ValidationError :=
  match readFields m configFields {} with
  | (c, none) =>
    let (code, error') := validate c error
    (code, c, error')
  | (c, some (key, e)) =>
    (.manifestInvalid, c, { error with fieldPath := key, message := confMessage key e })

/-- `parse` and `parse_string`, given what `from_file` and `from_string` come back with. `config` is
the output parameter, which an exception of CONF leaves as it was. -/
def parseResult (manifest : Except ConfError Conf) (config : Config) (error : ValidationError) :
    AmioErr × Config × ValidationError :=
  match manifest with
  | .ok m => populateFromConf m error
  | .error e =>
    let code := if e.code = .fileNotFound then .manifestNotFound else .manifestInvalid
    (code, config, { fieldPath := "", message := e.what, line := 0 })

def parse (lib : ConfLibrary) (path : String) (config : Config) (error : ValidationError) :
    AmioErr × Config × ValidationError :=
  parseResult (lib.fromFile path) config error

/-- `parse_string`. `format` is not looked at. -/
def parseString (lib : ConfLibrary) (content _format : String) (config : Config)
    (error : ValidationError) : AmioErr × Config × ValidationError :=
  parseResult (lib.fromString content) config error

/-! ### `serialize` -/

/-- The lines `- item` of a list, behind `indent`. -/
def serializeItems {α : Type} [ToString α] (indent : String) (items : List α) : String :=
  String.join (items.map fun a => indent ++ "- " ++ toString a ++ "\n")

/-- `serialize`: what is put into the stream, line by line. Empty lists and an absent option are
left out. -/
def serialize (c : Config) : String :=
  String.join
    ["staging_pool:\n",
      "  buffer_count: " ++ toString c.stagingPool.bufferCount ++ "\n",
      "  buffer_capacity_bytes: " ++ toString c.stagingPool.bufferCapacityBytes ++ "\n",
      "  max_buffer_count: " ++ toString c.stagingPool.maxBufferCount ++ "\n",
      "worker_pool:\n",
      "  threads: " ++ toString c.workerPool.threads ++ "\n",
      -- empty lists are left out, and so is a NUMA domain that is not set
      if c.workerPool.cpuCores = [] then ""
        else "  cpu_cores:\n" ++ serializeItems "    " c.workerPool.cpuCores,
      match c.workerPool.numaDomain with
        | none => ""
        | some d => "  numa_domain: " ++ toString d ++ "\n",
      "prefetch:\n",
      "  depth: " ++ toString c.prefetch.depth ++ "\n",
      "  read_timeout_s: " ++ toString c.prefetch.readTimeoutS ++ "\n",
      "staging_timeout_ms: " ++ toString c.stagingTimeoutMs ++ "\n",
      "backpressure:\n",
      "  low_watermark: " ++ toString c.backpressure.lowWatermark ++ "\n",
      "  high_watermark: " ++ toString c.backpressure.highWatermark ++ "\n",
      "  queue_capacity: " ++ toString c.backpressure.queueCapacity ++ "\n",
      -- texts are written as they are, without quotes
      "backend: " ++ c.backend ++ "\n",
      "codec:\n",
      "  active_codec: " ++ c.codec.activeCodec ++ "\n",
      if c.codec.losslessAllowList = [] then ""
        else "  lossless_allow_list:\n" ++ serializeItems "    " c.codec.losslessAllowList,
      if c.ioRanks = [] then "" else "io_ranks:\n" ++ serializeItems "  " c.ioRanks]

end ConfigLoader

end Amio
