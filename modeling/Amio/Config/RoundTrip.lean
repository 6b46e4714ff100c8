import Amio.Config.Validation
import Amio.Lib.BlockYaml

/-!
# The configuration written and read back

`serialize` writes every field as an unquoted scalar, and leaves out what the defaults stand for.
CONF is taken for a reader of such texts, `ReadsBlockYaml`, and of no others: of what `serialize`
writes of a valid configuration whose scalars are all plain it answers, for the keys of the schema,
what `BlockYaml.read` finds there; and of any text of `serialize`, a scalar that it answers is
plain. Nothing is said of comments, of quotes, of flow collections, or of the head of a map. Numbers
and recognised codecs are plain scalars; the backend is any string, so it comes back exactly when it
is plain as well (`config_round_trip_iff`).
-/

namespace Amio

namespace ConfigLoader

open BlockYaml

/-! ### CONF as a reader of what is written -/

/-- The keys of numbers. -/
def numberKeys : List String :=
  ["staging_pool.buffer_count", "staging_pool.buffer_capacity_bytes",
    "staging_pool.max_buffer_count", "worker_pool.threads", "worker_pool.numa_domain",
    "prefetch.depth", "prefetch.read_timeout_s", "staging_timeout_ms",
    "backpressure.low_watermark", "backpressure.high_watermark", "backpressure.queue_capacity"]

/-- The keys of strings. -/
def stringKeys : List String := ["backend", "codec.active_codec"]

/-- The keys of lists. -/
def listKeys : List String :=
  ["worker_pool.cpu_cores", "codec.lossless_allow_list", "io_ranks"]

/-- The parsed document `m` answers for the events `es` at the keys of the schema; decimal integers
are read exactly. -/
structure ReadsDocument (m : Conf) (es : List Event) : Prop where
  has : ∀ key ∈ numberKeys ++ stringKeys ++ listKeys,
    m.has key = (scalarAt es key.toList).isSome
  getString : ∀ key ∈ stringKeys, ∀ s : String, scalarAt es key.toList = some s.toList →
    itemsAt es key.toList = [] → m.getString key = .ok s
  getInt : ∀ key ∈ numberKeys, ∀ v n, scalarAt es key.toList = some v → integer v = some n →
    m.getInt key = .ok n
  getIntList : ∀ key ∈ listKeys, ∀ ns : List Int32, ns ≠ [] →
    (itemsAt es key.toList).map integer = ns.map (fun n => some n.toInt) →
    m.getIntList key = .ok ns
  getStringList : ∀ key ∈ listKeys, itemsAt es key.toList ≠ [] →
    m.getStringList key = .ok ((itemsAt es key.toList).map String.ofList)

/-- CONF parses what `serialize` writes of a valid configuration. -/
structure ReadsBlockYaml (lib : ConfLibrary) : Prop where
  /-- With plain scalars, it is read as block YAML. -/
  document : ∀ c : Config, Valid c → Plain c.backend.toList → ∀ es,
    read (serialize c).toList = some es →
      ∃ m, lib.fromString (serialize c) = .ok m ∧ ReadsDocument m es
  /-- A scalar that is not quoted is on one line, and the blanks around it are not part of it. -/
  scalars : ∀ c : Config, Valid c → ∀ m, lib.fromString (serialize c) = .ok m →
    ∀ key ∈ stringKeys, ∀ s, m.getString key = .ok s → Plain s.toList

/-! ### The lines of `serialize` -/

/-- Lines with keys and values of the source. -/
def pairText (n : Nat) (key value : String) : List Char := pairLine n key.toList value.toList

def headText (n : Nat) (key : String) : List Char := headLine n key.toList

/-- The values of a list as they are written. -/
def itemTexts {α : Type} [ToString α] (items : List α) : List (List Char) :=
  items.map fun a => (toString a).toList

/-- The line of an option that has a value. -/
def optionLines (n : Nat) (key : String) : Option Int32 → List (List Char)
  | none => []
  | some d => [pairText n key (toString d)]

/-- The lines that `serialize` writes. -/
def layout (c : Config) : List (List Char) :=
  headText 0 "staging_pool" ::
  pairText 2 "buffer_count" (toString c.stagingPool.bufferCount) ::
  pairText 2 "buffer_capacity_bytes" (toString c.stagingPool.bufferCapacityBytes) ::
  pairText 2 "max_buffer_count" (toString c.stagingPool.maxBufferCount) ::
  headText 0 "worker_pool" ::
  pairText 2 "threads" (toString c.workerPool.threads) ::
  (listLines 2 "cpu_cores".toList 4 (itemTexts c.workerPool.cpuCores) ++
  (optionLines 2 "numa_domain" c.workerPool.numaDomain ++
  headText 0 "prefetch" ::
  pairText 2 "depth" (toString c.prefetch.depth) ::
  pairText 2 "read_timeout_s" (toString c.prefetch.readTimeoutS) ::
  pairText 0 "staging_timeout_ms" (toString c.stagingTimeoutMs) ::
  headText 0 "backpressure" ::
  pairText 2 "low_watermark" (toString c.backpressure.lowWatermark) ::
  pairText 2 "high_watermark" (toString c.backpressure.highWatermark) ::
  pairText 2 "queue_capacity" (toString c.backpressure.queueCapacity) ::
  pairText 0 "backend" c.backend ::
  headText 0 "codec" ::
  pairText 2 "active_codec" c.codec.activeCodec ::
  (listLines 2 "lossless_allow_list".toList 4 (itemTexts c.codec.losslessAllowList) ++
  listLines 0 "io_ranks".toList 2 (itemTexts c.ioRanks))))

/-- Lines one after the other. -/
theorem unlines_append (ls ls' : List (List Char)) :
    unlines (ls ++ ls') = unlines ls ++ unlines ls' := by
  simp [unlines]

theorem unlines_cons (l : List Char) (ls : List (List Char)) :
    unlines (l :: ls) = l ++ '\n' :: unlines ls := by
  simp [unlines]

/-- The pieces of a text, one after the other. -/
theorem toList_join (pieces : List String) :
    (String.join pieces).toList = pieces.flatMap String.toList := by
  induction pieces with
  | nil => rfl
  | cons p pieces ih => simp [String.join_cons, ih]

/-- The line of a key with a value, as the source writes it: `label` is the literal in front. -/
theorem toList_pair {n : Nat} {label key value : String}
    (h : label.toList = List.replicate n ' ' ++ (key.toList ++ [':', ' '])) :
    (label ++ value ++ "\n").toList = pairText n key value ++ ['\n'] := by
  simp [h, pairText, pairLine]

/-- The lines of a list, as the source writes them. -/
theorem toList_items {α : Type} [ToString α] {n : Nat} {indent : String} (items : List α)
    (h : indent.toList = List.replicate n ' ') :
    (serializeItems indent items).toList = unlines ((itemTexts items).map (itemLine n)) := by
  unfold serializeItems itemTexts
  rw [toList_join]
  induction items with
  | nil => rfl
  | cons a items ih => simp [ih, unlines_cons, itemLine, h]

/-- The lines of a list. -/
theorem toList_list {α : Type} [ToString α] [DecidableEq α] {n k : Nat} {label indent key : String}
    (items : List α) (hlabel : label.toList = headText n key ++ ['\n'])
    (hindent : indent.toList = List.replicate k ' ') :
    (if items = [] then "" else label ++ serializeItems indent items).toList =
      unlines (listLines n key.toList k (itemTexts items)) := by
  unfold listLines
  by_cases h : items = []
  · simp [h, itemTexts, unlines]
  · have h' : itemTexts items ≠ [] := by simpa [itemTexts] using h
    rw [if_neg h, if_neg h', String.toList_append, hlabel, toList_items items hindent, unlines_cons]
    simp [headText]

/-- A piece that is one line. -/
theorem flatMap_line {p : String} {ps : List String} {l : List Char} {ls : List (List Char)}
    (h : p.toList = l ++ ['\n']) (hs : ps.flatMap String.toList = unlines ls) :
    (p :: ps).flatMap String.toList = unlines (l :: ls) := by
  simp [h, hs, unlines_cons]

/-- A piece that is several lines. -/
theorem flatMap_lines {p : String} {ps : List String} {l ls : List (List Char)}
    (h : p.toList = unlines l) (hs : ps.flatMap String.toList = unlines ls) :
    (p :: ps).flatMap String.toList = unlines (l ++ ls) := by
  simp [h, hs, unlines_append]

/-- The line of an option. -/
theorem toList_option {n : Nat} {label key : String} (d : Option Int32)
    (h : label.toList = List.replicate n ' ' ++ (key.toList ++ [':', ' '])) :
    (match d with
      | none => ""
      | some v => label ++ toString v ++ "\n").toList = unlines (optionLines n key d) := by
  cases d with
  | none => rfl
  | some v => simpa [optionLines, unlines] using toList_pair h

/-- **The text is its lines.** -/
theorem toList_serialize (c : Config) : (serialize c).toList = unlines (layout c) := by
  rw [serialize, toList_join, layout]
  -- `staging_pool` and `worker_pool`
  refine flatMap_line rfl (flatMap_line (toList_pair rfl) (flatMap_line (toList_pair rfl)
    (flatMap_line (toList_pair rfl) ?_)))
  refine flatMap_line rfl (flatMap_line (toList_pair rfl) (flatMap_lines (toList_list _ rfl rfl)
    (flatMap_lines (toList_option _ rfl) ?_)))
  -- `prefetch`, `staging_timeout_ms` and `backpressure`
  refine flatMap_line rfl (flatMap_line (toList_pair rfl) (flatMap_line (toList_pair rfl)
    (flatMap_line (toList_pair rfl) ?_)))
  refine flatMap_line rfl (flatMap_line (toList_pair rfl) (flatMap_line (toList_pair rfl)
    (flatMap_line (toList_pair rfl) ?_)))
  -- `backend`, `codec` and `io_ranks`
  refine flatMap_line (toList_pair rfl) (flatMap_line rfl (flatMap_line (toList_pair rfl)
    (flatMap_lines (toList_list _ rfl rfl) ?_)))
  exact (List.flatMap_singleton _ _).trans (toList_list _ rfl rfl)

/-! ### What is read from them -/

def scalarText (path value : String) : Event := .scalar path.toList value.toList

/-- The event of an option that has a value. -/
def optionEvents (path : String) : Option Int32 → List Event
  | none => []
  | some d => [scalarText path (toString d)]

/-- The events of the document. -/
def events (c : Config) : List Event :=
  scalarText "staging_pool" "" ::
  scalarText "staging_pool.buffer_count" (toString c.stagingPool.bufferCount) ::
  scalarText "staging_pool.buffer_capacity_bytes" (toString c.stagingPool.bufferCapacityBytes) ::
  scalarText "staging_pool.max_buffer_count" (toString c.stagingPool.maxBufferCount) ::
  scalarText "worker_pool" "" ::
  scalarText "worker_pool.threads" (toString c.workerPool.threads) ::
  (listEvents "worker_pool.cpu_cores".toList (itemTexts c.workerPool.cpuCores) ++
  (optionEvents "worker_pool.numa_domain" c.workerPool.numaDomain ++
  scalarText "prefetch" "" ::
  scalarText "prefetch.depth" (toString c.prefetch.depth) ::
  scalarText "prefetch.read_timeout_s" (toString c.prefetch.readTimeoutS) ::
  scalarText "staging_timeout_ms" (toString c.stagingTimeoutMs) ::
  scalarText "backpressure" "" ::
  scalarText "backpressure.low_watermark" (toString c.backpressure.lowWatermark) ::
  scalarText "backpressure.high_watermark" (toString c.backpressure.highWatermark) ::
  scalarText "backpressure.queue_capacity" (toString c.backpressure.queueCapacity) ::
  scalarText "backend" c.backend ::
  scalarText "codec" "" ::
  scalarText "codec.active_codec" c.codec.activeCodec ::
  (listEvents "codec.lossless_allow_list".toList (itemTexts c.codec.losslessAllowList) ++
  listEvents "io_ranks".toList (itemTexts c.ioRanks))))

theorem plain_uint64 (v : UInt64) : Plain (toString v).toList := plain_toString_int v.toNat

theorem plain_int32 (d : Int32) : Plain (toString d).toList := plain_toString_int d.toInt

theorem plain_int32s (ds : List Int32) : ∀ v ∈ itemTexts ds, Plain v := by
  simp only [itemTexts, List.forall_mem_map]
  exact fun d _ => plain_int32 d

/-- The recognised codecs are plain. -/
theorem plain_codec {codec : String} (h : isValidCodec codec) : Plain codec.toList := by
  have hall : (validCodecs.all fun name => isKey name.toList) = true := rfl
  exact (IsKey.of_isKey (List.all_eq_true.mp hall codec (by simpa [isValidCodec] using h))).plain

theorem plain_codecs {names : List String} (h : ∀ name ∈ names, isValidCodec name) :
    ∀ v ∈ itemTexts names, Plain v := by
  simp only [itemTexts, List.forall_mem_map]
  exact fun name hname => plain_codec (h name hname)

/-- The active codec of a valid configuration is plain. -/
theorem plain_activeCodec {c : Config} (hvalid : Valid c) : Plain c.codec.activeCodec.toList := by
  by_cases h : c.codec.activeCodec = ""
  · rw [h]
    exact plain_nil
  · exact plain_codec (hvalid.activeCodec h).1

/-- The lines of an option are read back. -/
theorem Reads.option {n : Nat} {outer : List Open} {key path : String} {ls : List (List Char)}
    {es : List Event} (d : Option Int32) (hkey : IsKey key.toList)
    (hpath : pathUnder outer key.toList = some path.toList) (hrest : Reads n outer ls es) :
    Reads n outer (optionLines n key d ++ ls) (optionEvents path d ++ es) := by
  cases d with
  | none => exact hrest
  | some v => exact .pair hkey (plain_int32 v) hpath hrest

/-- **The lines are read as the events.** -/
theorem reads_layout {c : Config} (hvalid : Valid c) (hbackend : Plain c.backend.toList) :
    Reads 0 [] (layout c ++ [[]]) (events c) := by
  unfold layout events
  simp only [List.cons_append, List.append_assoc]
  -- `staging_pool`
  refine .head (k := 2) (.of_isKey rfl) rfl (by decide) ?_
  refine .pair (.of_isKey rfl) (plain_uint64 _) rfl (.pair (.of_isKey rfl) (plain_uint64 _) rfl
    (.pair (.of_isKey rfl) (plain_uint64 _) rfl (.dedent (m := 0) (by decide) ?_)))
  -- `worker_pool`
  refine .head (k := 2) (.of_isKey rfl) rfl (by decide) ?_
  refine .pair (.of_isKey rfl) (plain_uint64 _) rfl ?_
  refine .list (.of_isKey rfl) (plain_int32s _) rfl (by decide) ?_
  refine Reads.option _ (.of_isKey rfl) rfl (.dedent (m := 0) (by decide) ?_)
  -- `prefetch`
  refine .head (k := 2) (.of_isKey rfl) rfl (by decide) ?_
  refine .pair (.of_isKey rfl) (plain_uint64 _) rfl (.pair (.of_isKey rfl) (plain_uint64 _) rfl
    (.dedent (m := 0) (by decide) ?_))
  refine .pair (.of_isKey rfl) (plain_uint64 _) rfl ?_
  -- `backpressure`
  refine .head (k := 2) (.of_isKey rfl) rfl (by decide) ?_
  refine .pair (.of_isKey rfl) (plain_uint64 _) rfl (.pair (.of_isKey rfl) (plain_uint64 _) rfl
    (.pair (.of_isKey rfl) (plain_uint64 _) rfl (.dedent (m := 0) (by decide) ?_)))
  refine .pair (.of_isKey rfl) hbackend rfl ?_
  -- `codec`
  refine .head (k := 2) (.of_isKey rfl) rfl (by decide) ?_
  refine .pair (.of_isKey rfl) (plain_activeCodec hvalid) rfl ?_
  refine .list (.of_isKey rfl) (plain_codecs hvalid.allowList) rfl (by decide)
    (.dedent (m := 0) (by decide) ?_)
  have hranks : Reads 0 [] (listLines 0 "io_ranks".toList 2 (itemTexts c.ioRanks) ++ [[]])
      (listEvents "io_ranks".toList (itemTexts c.ioRanks) ++ []) :=
    .list (.of_isKey rfl) (plain_int32s _) rfl (by decide) .finish
  rwa [List.append_nil] at hranks

/-- What `serialize` writes is read as the events of the configuration. -/
theorem read_serialize {c : Config} (hvalid : Valid c) (hbackend : Plain c.backend.toList) :
    read (serialize c).toList = some (events c) := by
  rw [toList_serialize]
  exact read_unlines (reads_layout hvalid hbackend)

/-! ### The fields -/

/-- The manifest `m` describes the configuration `c`. -/
structure Describes (m : Conf) (c : Config) : Prop where
  bufferCount : Gives m getSize "staging_pool.buffer_count" 16 c.stagingPool.bufferCount
  bufferCapacityBytes : Gives m getSize "staging_pool.buffer_capacity_bytes" 1048576
    c.stagingPool.bufferCapacityBytes
  maxBufferCount : Gives m getSize "staging_pool.max_buffer_count" 4096
    c.stagingPool.maxBufferCount
  threads : Gives m getSize "worker_pool.threads" 1 c.workerPool.threads
  cpuCores : Gives m Conf.getIntList "worker_pool.cpu_cores" [] c.workerPool.cpuCores
  numaDomain : Gives m getNuma "worker_pool.numa_domain" none c.workerPool.numaDomain
  depth : Gives m getSize "prefetch.depth" 4 c.prefetch.depth
  readTimeoutS : Gives m getSize "prefetch.read_timeout_s" 60 c.prefetch.readTimeoutS
  stagingTimeoutMs : Gives m getSize "staging_timeout_ms" 5000 c.stagingTimeoutMs
  lowWatermark : Gives m getSize "backpressure.low_watermark" 0 c.backpressure.lowWatermark
  highWatermark : Gives m getSize "backpressure.high_watermark" 0 c.backpressure.highWatermark
  queueCapacity : Gives m getSize "backpressure.queue_capacity" 1024 c.backpressure.queueCapacity
  backend : Gives m Conf.getString "backend" "" c.backend
  activeCodec : Gives m Conf.getString "codec.active_codec" "" c.codec.activeCodec
  losslessAllowList : Gives m Conf.getStringList "codec.lossless_allow_list" []
    c.codec.losslessAllowList
  ioRanks : Gives m Conf.getIntList "io_ranks" [] c.ioRanks

/-- **What a manifest describes is what is read from it.** -/
theorem Describes.populateFromConf {m : Conf} {c : Config} (h : Describes m c) (hvalid : Valid c)
    (error : ValidationError) : populateFromConf m error = (.ok, c, error) := by
  have hread : readFields m configFields {} = (c, none) := by
    rw [configFields, readFields_step (·.stagingPool.bufferCount) (fun _ => rfl) h.bufferCount,
      readFields_step (·.stagingPool.bufferCapacityBytes) (fun _ => rfl) h.bufferCapacityBytes,
      readFields_step (·.stagingPool.maxBufferCount) (fun _ => rfl) h.maxBufferCount,
      readFields_step (·.workerPool.threads) (fun _ => rfl) h.threads,
      readFields_step (·.workerPool.cpuCores) (fun _ => rfl) h.cpuCores,
      readFields_step (·.workerPool.numaDomain) (fun _ => rfl) h.numaDomain,
      readFields_step (·.prefetch.depth) (fun _ => rfl) h.depth,
      readFields_step (·.prefetch.readTimeoutS) (fun _ => rfl) h.readTimeoutS,
      readFields_step (·.stagingTimeoutMs) (fun _ => rfl) h.stagingTimeoutMs,
      readFields_step (·.backpressure.lowWatermark) (fun _ => rfl) h.lowWatermark,
      readFields_step (·.backpressure.highWatermark) (fun _ => rfl) h.highWatermark,
      readFields_step (·.backpressure.queueCapacity) (fun _ => rfl) h.queueCapacity,
      readFields_step (·.backend) (fun _ => rfl) h.backend,
      readFields_step (·.codec.activeCodec) (fun _ => rfl) h.activeCodec,
      readFields_step (·.codec.losslessAllowList) (fun _ => rfl) h.losslessAllowList,
      readFields_step (·.ioRanks) (fun _ => rfl) h.ioRanks]
    rfl
  simp [ConfigLoader.populateFromConf, hread, validate_error_of_ok hvalid]

section Fields

variable {m : Conf} {es : List Event}

theorem ReadsDocument.size (hm : ReadsDocument m es) {key : String} (hkey : key ∈ numberKeys)
    {default v : UInt64} (h : scalarAt es key.toList = some (toString v).toList) :
    Gives m getSize key default v := by
  have hhas := hm.has key (by simp [hkey])
  refine .inr ⟨by simp [hhas, h], getSize_eq_ok.mpr ⟨v.toNat, ?_, ?_⟩⟩
  · exact hm.getInt key hkey _ v.toNat h (integer_toString v.toNat)
  · have hcast := toNat_ofInt v.toNat
    have hlt := v.toNat_lt
    exact UInt64.toNat_inj.mp (by omega)

/-- The NUMA domain is answered. -/
theorem ReadsDocument.numa (hm : ReadsDocument m es) {key : String} (hkey : key ∈ numberKeys)
    {d : Option Int32} (h : scalarAt es key.toList = d.map fun v => (toString v).toList) :
    Gives m getNuma key none d := by
  have hhas := hm.has key (by simp [hkey])
  cases d with
  | none => exact .inl ⟨by simp [hhas, h], rfl⟩
  | some v =>
    refine .inr ⟨by simp [hhas, h], getNuma_eq_ok.mpr ⟨v.toInt, ?_, by simp⟩⟩
    exact hm.getInt key hkey _ v.toInt h (integer_toString v.toInt)

theorem ReadsDocument.string (hm : ReadsDocument m es) {key : String} (hkey : key ∈ stringKeys)
    {default v : String} (h : scalarAt es key.toList = some v.toList)
    (hitems : itemsAt es key.toList = []) : Gives m Conf.getString key default v := by
  have hhas := hm.has key (by simp [hkey])
  exact .inr ⟨by simp [hhas, h], hm.getString key hkey v h hitems⟩

/-- A list of integers is answered. -/
theorem ReadsDocument.ints (hm : ReadsDocument m es) {key : String} (hkey : key ∈ listKeys)
    {ns : List Int32} (h : scalarAt es key.toList = if itemTexts ns ≠ [] then some [] else none)
    (hitems : itemsAt es key.toList = itemTexts ns) : Gives m Conf.getIntList key [] ns := by
  have hhas := hm.has key (by simp [hkey])
  by_cases hns : ns = []
  · exact .inl ⟨by simp [hhas, h, hns, itemTexts], hns⟩
  · refine .inr ⟨by simp [hhas, h, hns, itemTexts], hm.getIntList key hkey ns hns ?_⟩
    rw [hitems, itemTexts, List.map_map]
    exact List.map_congr_left fun n _ => integer_toString n.toInt

/-- A list of strings is answered. -/
theorem ReadsDocument.strings (hm : ReadsDocument m es) {key : String} (hkey : key ∈ listKeys)
    {names : List String}
    (h : scalarAt es key.toList = if itemTexts names ≠ [] then some [] else none)
    (hitems : itemsAt es key.toList = itemTexts names) :
    Gives m Conf.getStringList key [] names := by
  have hhas := hm.has key (by simp [hkey])
  by_cases hnames : names = []
  · exact .inl ⟨by simp [hhas, h, hnames, itemTexts], hnames⟩
  · refine .inr ⟨by simp [hhas, h, hnames, itemTexts], ?_⟩
    rw [hm.getStringList key hkey (by simpa [hitems, itemTexts] using hnames), hitems]
    have hback : (itemTexts names).map String.ofList = names := by
      rw [itemTexts, List.map_map]
      exact (List.map_congr_left fun name _ => String.ofList_toList).trans (List.map_id names)
    rw [hback]

end Fields

/-- The scalar of an event. -/
theorem scalarAt_scalarText (path value key : String) (es : List Event) :
    scalarAt (scalarText path value :: es) key.toList =
      if path = key then some value.toList else scalarAt es key.toList := by
  simp [scalarText, String.toList_inj]

/-- The scalar of an option. -/
theorem scalarAt_optionEvents (path key : String) (d : Option Int32) :
    scalarAt (optionEvents path d) key.toList =
      if path = key then d.map fun v => (toString v).toList else none := by
  cases d with
  | none => simp [optionEvents]
  | some v => simp [optionEvents, scalarAt_scalarText]

/-- A scalar has no items. -/
theorem itemsAt_scalarText (path value : String) (key : List Char) (es : List Event) :
    itemsAt (scalarText path value :: es) key = itemsAt es key :=
  itemsAt_scalar _ _

theorem itemsAt_optionEvents (path : String) (d : Option Int32) (key : List Char) :
    itemsAt (optionEvents path d) key = [] := by
  cases d with
  | none => rfl
  | some v => simp [optionEvents, itemsAt_scalarText]

/-- A list that is not empty has a head. -/
theorem scalarAt_list (path key : String) (values : List (List Char)) :
    scalarAt (listEvents path.toList values) key.toList =
      if path = key ∧ values ≠ [] then some [] else none := by
  simp [String.toList_inj]

/-- The items of a list. -/
theorem itemsAt_list (path key : String) (values : List (List Char)) :
    itemsAt (listEvents path.toList values) key.toList = if path = key then values else [] := by
  simp [String.toList_inj]

/-- The scalars that are always written. -/
def scalars (c : Config) : List (String × String) :=
  [("staging_pool.buffer_count", toString c.stagingPool.bufferCount),
    ("staging_pool.buffer_capacity_bytes", toString c.stagingPool.bufferCapacityBytes),
    ("staging_pool.max_buffer_count", toString c.stagingPool.maxBufferCount),
    ("worker_pool.threads", toString c.workerPool.threads),
    ("prefetch.depth", toString c.prefetch.depth),
    ("prefetch.read_timeout_s", toString c.prefetch.readTimeoutS),
    ("staging_timeout_ms", toString c.stagingTimeoutMs),
    ("backpressure.low_watermark", toString c.backpressure.lowWatermark),
    ("backpressure.high_watermark", toString c.backpressure.highWatermark),
    ("backpressure.queue_capacity", toString c.backpressure.queueCapacity),
    ("backend", c.backend),
    ("codec.active_codec", c.codec.activeCodec)]

/-- The lists, which are written unless they are empty. -/
def lists (c : Config) : List (String × List (List Char)) :=
  [("worker_pool.cpu_cores", itemTexts c.workerPool.cpuCores),
    ("codec.lossless_allow_list", itemTexts c.codec.losslessAllowList),
    ("io_ranks", itemTexts c.ioRanks)]

/-- Every scalar of the configuration is found under its key. -/
theorem scalarAt_scalars (c : Config) :
    ∀ row ∈ scalars c, scalarAt (events c) row.1.toList = some row.2.toList := by
  simp only [scalars, List.forall_mem_cons, events, scalarAt_append, scalarAt_scalarText,
    scalarAt_optionEvents, scalarAt_list, String.reduceEq, ↓reduceIte, Option.none_or, false_and,
    List.not_mem_nil, false_imp_iff, implies_true, and_true]

/-- Every list is, if it has items. -/
theorem scalarAt_lists (c : Config) :
    ∀ row ∈ lists c, scalarAt (events c) row.1.toList = if row.2 ≠ [] then some [] else none := by
  simp only [lists, List.forall_mem_cons, events, scalarAt_append, scalarAt_scalarText,
    scalarAt_optionEvents, scalarAt_list, String.reduceEq, ↓reduceIte, Option.none_or,
    Option.or_none, false_and, true_and, List.not_mem_nil, false_imp_iff, implies_true, and_true]

theorem itemsAt_lists (c : Config) :
    ∀ row ∈ lists c, itemsAt (events c) row.1.toList = row.2 := by
  simp only [lists, List.forall_mem_cons, events, itemsAt_append, itemsAt_scalarText,
    itemsAt_optionEvents, itemsAt_list, String.reduceEq, ↓reduceIte, List.nil_append,
    List.append_nil, List.not_mem_nil, false_imp_iff, implies_true, and_true]

/-- No scalar has items. -/
theorem itemsAt_scalars (c : Config) :
    ∀ row ∈ scalars c, itemsAt (events c) row.1.toList = [] := by
  simp only [scalars, List.forall_mem_cons, events, itemsAt_append, itemsAt_scalarText,
    itemsAt_optionEvents, itemsAt_list, String.reduceEq, ↓reduceIte, List.nil_append,
    List.not_mem_nil, false_imp_iff, implies_true, and_true]

/-- The NUMA domain is found, if there is one. -/
theorem scalarAt_numaDomain (c : Config) :
    scalarAt (events c) "worker_pool.numa_domain".toList =
      c.workerPool.numaDomain.map fun v => (toString v).toList := by
  simp only [events, scalarAt_append, scalarAt_scalarText, scalarAt_optionEvents, scalarAt_list,
    String.reduceEq, ↓reduceIte, Option.none_or, Option.or_none, false_and]

/-- **The events of a configuration describe it.** -/
theorem describes {m : Conf} {c : Config} (hm : ReadsDocument m (events c)) : Describes m c := by
  have hscalars := scalarAt_scalars c
  have hplain := itemsAt_scalars c
  have hlists := scalarAt_lists c
  have hitems := itemsAt_lists c
  simp only [scalars, List.forall_mem_cons] at hscalars hplain
  simp only [lists, List.forall_mem_cons] at hlists hitems
  obtain ⟨h₁, h₂, h₃, h₄, h₅, h₆, h₇, h₈, h₉, h₁₀, h₁₁, h₁₂, -⟩ := hscalars
  obtain ⟨-, -, -, -, -, -, -, -, -, -, p₁₁, p₁₂, -⟩ := hplain
  obtain ⟨l₁, l₂, l₃, -⟩ := hlists
  obtain ⟨i₁, i₂, i₃, -⟩ := hitems
  exact ⟨hm.size (by decide) h₁, hm.size (by decide) h₂, hm.size (by decide) h₃,
    hm.size (by decide) h₄, hm.ints (by decide) l₁ i₁,
    hm.numa (by decide) (scalarAt_numaDomain c), hm.size (by decide) h₅, hm.size (by decide) h₆,
    hm.size (by decide) h₇, hm.size (by decide) h₈, hm.size (by decide) h₉,
    hm.size (by decide) h₁₀, hm.string (by decide) h₁₁ p₁₁, hm.string (by decide) h₁₂ p₁₂,
    hm.strings (by decide) l₂ i₂, hm.ints (by decide) l₃ i₃⟩

/-! ### Results -/

/-- What comes back has a plain backend, whatever was written. -/
theorem plain_of_round_trip {lib : ConfLibrary} (hlib : ReadsBlockYaml lib) {c config : Config}
    (hvalid : Valid c) {error error' : ValidationError}
    (hparse : parseString lib (serialize c) "yaml" config error = (.ok, c, error')) :
    Plain c.backend.toList := by
  unfold parseString at hparse
  cases hfrom : lib.fromString (serialize c) with
  | ok m =>
    rw [hfrom] at hparse
    obtain ⟨hread, -, -⟩ := populateFromConf_ok hparse
    have hbackend : c.backend = valueD m Conf.getString "backend" "" :=
      congrArg Config.backend hread
    rw [hbackend]
    unfold valueD
    split
    · cases hget : m.getString "backend" with
      | ok s => exact hlib.scalars c hvalid m hfrom "backend" (by decide) s hget
      | error e => exact plain_nil
    · exact plain_nil
  | error e =>
    -- `from_string` throws, and `parse_string` does not return `AMIO_OK`
    rw [hfrom] at hparse
    have hcode := congrArg Prod.fst hparse
    simp only [parseResult] at hcode
    split at hcode <;> cases hcode

/-- **The round trip of a configuration**: what `serialize` writes of a valid configuration is
parsed to that configuration exactly when its backend has no newline and no surrounding blanks. -/
theorem config_round_trip_iff (lib : ConfLibrary) (hlib : ReadsBlockYaml lib) (c : Config)
    (error : ValidationError) (hvalid : (validate c error).1 = .ok) (config : Config) :
    (∃ error', parseString lib (serialize c) "yaml" config error = (.ok, c, error')) ↔
      Plain c.backend.toList := by
  constructor
  · rintro ⟨error', hparse⟩
    exact plain_of_round_trip hlib (validate_ok_iff.mp hvalid) hparse
  · intro hbackend
    have hvalid' := validate_ok_iff.mp hvalid
    obtain ⟨m, hfrom, hm⟩ := hlib.document c hvalid' hbackend _ (read_serialize hvalid' hbackend)
    rw [parseString, hfrom]
    exact ⟨error, (describes hm).populateFromConf hvalid' error⟩

/-! ### A reader of block YAML -/

/-- The `int` of a numeral in range. -/
def int32At (v : List Char) : Option Int32 :=
  (integer v).bind fun n => if -2 ^ 31 ≤ n ∧ n < 2 ^ 31 then some (.ofInt n) else none

/-- A decimal number of 32 bits is read exactly. -/
theorem int32At_of_integer {v : List Char} {d : Int32} (h : integer v = some d.toInt) :
    int32At v = some d := by
  rw [int32At, h, Option.bind_some, if_pos ⟨d.le_toInt, d.toInt_lt⟩, Int32.ofInt_toInt]

/-- The document of a list of events. -/
def document (es : List Event) : Conf where
  -- a head has an empty scalar, so that it is there as well
  has key := (scalarAt es key.toList).isSome
  getInt key :=
    match (scalarAt es key.toList).bind integer with
    | some n => .ok n
    | none => .error ⟨.typeMismatch, key⟩
  getString key :=
    match scalarAt es key.toList, itemsAt es key.toList with
    | some v, [] => .ok (String.ofList v)
    | _, _ => .error ⟨.typeMismatch, key⟩
  getIntList key :=
    -- one item that is no `int` fails the whole list
    let ints := (itemsAt es key.toList).map int32At
    if none ∈ ints then .error ⟨.typeMismatch, key⟩ else .ok (ints.filterMap id)
  getStringList key := .ok ((itemsAt es key.toList).map String.ofList)
  getStringOr key default :=
    match scalarAt es key.toList with
    | some v => .ok (String.ofList v)
    | none => .ok default

/-- The executable document answers for the events. -/
theorem readsDocument_document (es : List Event) : ReadsDocument (document es) es where
  has _ _ := rfl
  getString key _ s hv hitems := by simp [document, hv, hitems, String.ofList_toList]
  getInt key _ v n hv hn := by simp [document, hv, hn]
  getIntList key _ ns _ hints := by
    have hall : (itemsAt es key.toList).map int32At = ns.map some := by
      refine List.ext_getElem (by simpa using congrArg List.length hints) fun i h₁ h₂ => ?_
      have hi := congrArg (fun l => l[i]?) hints
      simp only [List.length_map] at h₁ h₂
      simp only [List.getElem?_map, List.getElem?_eq_getElem h₁, List.getElem?_eq_getElem h₂,
        Option.map_some, Option.some.injEq] at hi
      simpa using int32At_of_integer hi
    simp only [document, hall]
    rw [if_neg (by simp)]
    simp
  getStringList _ _ _ := rfl

/-- The strings of a document are scalars of its text. -/
theorem plain_of_document {text : List Char} {es : List Event} (hread : read text = some es)
    {key s : String} (h : (document es).getString key = .ok s) : Plain s.toList := by
  simp only [document] at h
  split at h
  · next v hv hitems =>
    obtain rfl := Except.ok.inj h
    rw [String.toList_ofList]
    exact plain_of_scalarAt hread hv
  · cases h

/-- A library that parses block YAML, and has no files. -/
def blockYaml : ConfLibrary where
  fromFile path := .error ⟨.fileNotFound, path⟩
  fromString text :=
    match read text.toList with
    | some es => .ok (document es)
    | none => .error ⟨.parseError, "malformed document"⟩

/-- The executable reader reads what `serialize` writes. -/
theorem readsBlockYaml_blockYaml : ReadsBlockYaml blockYaml := by
  constructor
  · intro c _ _ es hread
    refine ⟨document es, ?_, readsDocument_document es⟩
    simp only [blockYaml, hread]
  · intro c _ m hfrom key _ s hget
    simp only [blockYaml] at hfrom
    split at hfrom
    · next es hread =>
      obtain rfl := Except.ok.inj hfrom
      exact plain_of_document hread hget
    · cases hfrom

/-- A configuration with every optional part. -/
def netcdf4Config : Config where
  workerPool := { threads := 2, cpuCores := [0, 2], numaDomain := some (-1) }
  backpressure := { lowWatermark := 2, highWatermark := 8 }
  backend := "netcdf4"
  codec := { losslessAllowList := ["blosc", "libaec"], activeCodec := "libaec" }
  ioRanks := [0, 4]

theorem config_round_trip_netcdf4 :
    (∃ error', parseString blockYaml (serialize netcdf4Config) "yaml" {} {} =
      (.ok, netcdf4Config, error')) ↔ Plain netcdf4Config.backend.toList :=
  config_round_trip_iff blockYaml readsBlockYaml_blockYaml netcdf4Config {} (by decide) {}

/-- A backend with a blank in front. -/
def blankBackend : Config := { backend := " netcdf4" }

/-- **A blank in front of the backend is lost.** -/
theorem blank_backend_lost :
    ReadsBlockYaml blockYaml ∧ (validate blankBackend {}).1 = .ok ∧
      ¬ ∃ error', parseString blockYaml (serialize blankBackend) "yaml" {} {} =
        (.ok, blankBackend, error') := by
  refine ⟨readsBlockYaml_blockYaml, by decide, ?_⟩
  rintro ⟨error', hparse⟩
  have hok : (validate blankBackend {}).1 = .ok := by decide
  have hvalid : Valid blankBackend := validate_ok_iff.mp hok
  have hplain := plain_of_round_trip readsBlockYaml_blockYaml hvalid hparse
  exact absurd hplain.trimmed (by decide)

end ConfigLoader

end Amio
