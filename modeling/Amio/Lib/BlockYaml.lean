import Amio.Lib.Labelled
import Mathlib.Data.List.DropRight

/-!
# Block YAML

The part of YAML that configuration files are written in: lines `key: value`, maps and lists by
indentation, lists of lines `- item`, and plain scalars, from which the surrounding blanks are
trimmed. A scalar is read as it stands; quotes, comments and flow collections are not part of this.

A document is read line by line into a list of events, each a scalar or an item with the dotted path
of the key that it belongs to. The keys that the next line may belong to are a stack, `Open`, which
a line closes down to its own indentation. What is read is `Plain`, whatever the text
(`read_plain`); a line written with a plain value is read back, and the events of a written document
are put together line by line by the rules of `Reads`.
-/

namespace BlockYaml

/-! ### Plain scalars -/

def isBlank (c : Char) : Bool := c == ' ' || c == '\t'

/-- The scalar between the surrounding blanks. -/
def trim (l : List Char) : List Char := (l.dropWhile isBlank).rdropWhile isBlank

/-- A scalar that survives the way into a line and back. -/
structure Plain (v : List Char) : Prop where
  trimmed : trim v = v
  one_line : '\n' ∉ v

theorem mem_of_mem_trim {l : List Char} {c : Char} (h : c ∈ trim l) : c ∈ l :=
  (List.dropWhile_suffix isBlank).subset ((List.rdropWhile_prefix isBlank _).subset h)

theorem trim_trim (l : List Char) : trim (trim l) = trim l := by
  have hhead : (trim l).dropWhile isBlank = trim l := by
    refine List.dropWhile_eq_self_iff.mpr fun hl => ?_
    -- the first symbol is that of what the blanks in front were dropped from
    obtain ⟨rest, hrest⟩ : trim l <+: l.dropWhile isBlank := List.rdropWhile_prefix isBlank _
    have hne : l.dropWhile isBlank ≠ [] := by
      rw [← hrest]
      exact List.append_ne_nil_of_left_ne_nil (List.ne_nil_of_length_pos hl) rest
    have hnot := List.head_dropWhile_not isBlank hne
    simp only [← hrest, List.head_append_of_ne_nil (List.ne_nil_of_length_pos hl)] at hnot
    rw [← List.head_eq_getElem_zero (List.ne_nil_of_length_pos hl), hnot]
    exact Bool.false_ne_true
  rw [trim, hhead]
  exact List.rdropWhile_idempotent isBlank _

theorem plain_trim {l : List Char} (h : '\n' ∉ l) : Plain (trim l) :=
  ⟨trim_trim l, fun hmem => h (mem_of_mem_trim hmem)⟩

theorem plain_nil : Plain [] := ⟨rfl, List.not_mem_nil⟩

/-- A scalar without blanks and newlines is plain. -/
theorem plain_of_forall {v : List Char} (h : ∀ c ∈ v, isBlank c = false ∧ c ≠ '\n') : Plain v where
  trimmed := by
    have hhead : v.dropWhile isBlank = v := by
      refine List.dropWhile_eq_self_iff.mpr fun hl => ?_
      simp [(h _ (List.getElem_mem hl)).1]
    rw [trim, hhead]
    exact List.rdropWhile_eq_self_iff.mpr fun hl => by simp [(h _ (List.getLast_mem hl)).1]
  one_line hmem := (h _ hmem).2 rfl

theorem trim_cons_blank {c : Char} (hc : isBlank c = true) (l : List Char) :
    trim (c :: l) = trim l := by
  simp [trim, hc]

/-! ### Lines -/

inductive Entry
  | pair (key value : List Char)
  | item (value : List Char)
  deriving DecidableEq, Repr

def Entry.value : Entry → List Char
  | .pair _ value => value
  | .item value => value

structure Line where
  indent : Nat
  entry : Entry
  deriving DecidableEq, Repr

/-- Nothing or a blank follows. -/
def endsHere : List Char → Bool
  | [] => true
  | c :: _ => isBlank c

/-- What follows the dash of an item. -/
def afterDash : List Char → Option (List Char)
  | '-' :: rest => if endsHere rest then some rest else none
  | _ => none

/-- A line is divided at its first colon that a blank or nothing follows. -/
def splitPair : List Char → Option (List Char × List Char)
  | [] => none
  | c :: rest =>
    if c = ':' ∧ endsHere rest then some ([], rest)
    else (splitPair rest).map fun kv => (c :: kv.1, kv.2)

def parseEntry (body : List Char) : Option Entry :=
  match afterDash body with
  | some rest => some (.item (trim rest))
  | none => (splitPair body).map fun kv => .pair (trim kv.1) (trim kv.2)

def parseLine (l : List Char) : Option Line :=
  (parseEntry (l.dropWhile (· == ' '))).map fun e => ⟨(l.takeWhile (· == ' ')).length, e⟩

/-- A key: not empty, no blanks, no newline, no colon, and no dash in front. -/
structure IsKey (key : List Char) : Prop where
  ne_nil : key ≠ []
  symbols : ∀ c ∈ key, isBlank c = false ∧ c ≠ '\n' ∧ c ≠ ':'
  no_dash : key.head? ≠ some '-'

/-- The test for a key. -/
def isKey (key : List Char) : Bool :=
  !key.isEmpty && key.all (fun c => !isBlank c && c != '\n' && c != ':') && key.head? != some '-'

theorem IsKey.of_isKey {key : List Char} (h : isKey key = true) : IsKey key := by
  simp only [isKey, Bool.and_eq_true, Bool.not_eq_true', List.isEmpty_eq_false_iff,
    List.all_eq_true, bne_iff_ne] at h
  exact ⟨h.1.1, fun c hc => ⟨(h.1.2 c hc).1.1, (h.1.2 c hc).1.2, (h.1.2 c hc).2⟩, h.2⟩

theorem IsKey.plain {key : List Char} (h : IsKey key) : Plain key :=
  plain_of_forall fun c hc => ⟨(h.symbols c hc).1, (h.symbols c hc).2.1⟩

theorem splitPair_key {key rest : List Char} (hkey : ∀ c ∈ key, c ≠ ':')
    (hrest : endsHere rest = true) : splitPair (key ++ ':' :: rest) = some (key, rest) := by
  induction key with
  | nil => simp [splitPair, hrest]
  | cons c key ih =>
    have hc : c ≠ ':' := hkey c (by simp)
    simp [splitPair, hc, ih fun d hd => hkey d (by simp [hd])]

theorem afterDash_eq_none {c : Char} (hc : c ≠ '-') (rest : List Char) :
    afterDash (c :: rest) = none := by
  unfold afterDash
  split
  · next heq => exact absurd (List.cons.inj heq).1 hc
  · rfl

theorem parseEntry_key {key rest : List Char} (hkey : IsKey key) (hrest : endsHere rest = true) :
    parseEntry (key ++ ':' :: rest) = some (.pair key (trim rest)) := by
  have hdash : afterDash (key ++ ':' :: rest) = none := by
    cases key with
    | nil => exact absurd rfl hkey.ne_nil
    | cons c key =>
      refine afterDash_eq_none (fun hc => hkey.no_dash ?_) _
      rw [hc]
      rfl
  have hsplit := splitPair_key (fun c hc => (hkey.symbols c hc).2.2) hrest
  simp [parseEntry, hdash, hsplit, hkey.plain.trimmed]

theorem parseEntry_item {rest : List Char} (hrest : endsHere rest = true) :
    parseEntry ('-' :: rest) = some (.item (trim rest)) := by
  simp [parseEntry, afterDash, hrest]

/-- The indentation is what stands before the first symbol that is not a space. -/
theorem parseLine_indented {n : Nat} {body : List Char} {e : Entry}
    (hbody : body.head? ≠ some ' ') (h : parseEntry body = some e) :
    parseLine (List.replicate n ' ' ++ body) = some ⟨n, e⟩ := by
  have hspaces : ∀ c ∈ List.replicate n ' ', (c == ' ') = true := by
    intro c hc
    simp [List.eq_of_mem_replicate hc]
  -- the body does not begin with a space, so the indent is counted exactly
  have hdrop : body.dropWhile (· == ' ') = body := by
    cases body with
    | nil => rfl
    | cons c body => exact List.dropWhile_cons_of_neg (by simpa using hbody)
  have htake : body.takeWhile (· == ' ') = [] := by
    cases body with
    | nil => rfl
    | cons c body => exact List.takeWhile_cons_of_neg (by simpa using hbody)
  rw [parseLine, List.dropWhile_append_of_pos hspaces, List.takeWhile_append_of_pos hspaces, hdrop,
    htake, h]
  simp

theorem mem_of_mem_splitPair {l : List Char} {kv : List Char × List Char}
    (h : splitPair l = some kv) : ∀ c ∈ kv.2, c ∈ l := by
  induction l generalizing kv with
  | nil => cases h
  | cons d l ih =>
    unfold splitPair at h
    split at h
    · obtain rfl := Option.some.inj h
      exact fun c hc => List.mem_cons_of_mem _ hc
    · obtain ⟨kv', hkv', rfl⟩ := Option.map_eq_some_iff.mp h
      exact fun c hc => List.mem_cons_of_mem _ (ih hkv' c hc)

theorem mem_of_mem_afterDash {l rest : List Char} (h : afterDash l = some rest) :
    ∀ c ∈ rest, c ∈ l := by
  unfold afterDash at h
  split at h
  · simp only [Option.ite_none_right_eq_some, Option.some.injEq] at h
    obtain ⟨-, rfl⟩ := h
    exact fun c hc => List.mem_cons_of_mem _ hc
  · cases h

/-- **What is read from a line is plain.** -/
theorem plain_of_parseLine {l : List Char} {line : Line} (hl : '\n' ∉ l)
    (h : parseLine l = some line) : Plain line.entry.value := by
  obtain ⟨e, he, rfl⟩ := Option.map_eq_some_iff.mp h
  have hbody : '\n' ∉ l.dropWhile (· == ' ') :=
    fun hmem => hl ((List.dropWhile_suffix _).subset hmem)
  unfold parseEntry at he
  split at he
  · next rest hrest =>
    obtain rfl := Option.some.inj he
    exact plain_trim fun hmem => hbody (mem_of_mem_afterDash hrest _ hmem)
  · obtain ⟨kv, hkv, rfl⟩ := Option.map_eq_some_iff.mp he
    exact plain_trim fun hmem => hbody (mem_of_mem_splitPair hkv _ hmem)

/-! ### Documents -/

/-- What a line adds to the document, at the dotted path of its key. -/
inductive Event
  | scalar (path value : List Char)
  | item (path value : List Char)
  deriving DecidableEq, Repr

def Event.value : Event → List Char
  | .scalar _ value => value
  | .item _ value => value

/-- A key that the following lines may belong to. One with a scalar of its own has none. -/
structure Open where
  indent : Nat
  path : List Char
  nests : Bool

/-- The keys that a line at indentation `n` leaves open. -/
def outerAt (n : Nat) (opened : List Open) : List Open :=
  opened.dropWhile fun o => decide (n ≤ o.indent)

/-- The key `key` under the innermost open key. -/
def pathUnder (outer : List Open) (key : List Char) : Option (List Char) :=
  match outer with
  | [] => some key
  | o :: _ => if o.nests then some (o.path ++ '.' :: key) else none

/-- A line closes the keys that are not less indented, an item those that are more indented. -/
def place (opened : List Open) (line : Line) : Option (List Open × Event) :=
  match line.entry with
  | .pair key value =>
    -- a key closes the blocks that are indented as it is, or more
    let outer := outerAt line.indent opened
    (pathUnder outer key).map fun path =>
      (⟨line.indent, path, value.isEmpty⟩ :: outer, .scalar path value)
  | .item value =>
    -- an item may stand at the indentation of its key
    match opened.dropWhile fun o => decide (line.indent < o.indent) with
    | o :: outer => if o.nests then some (o :: outer, .item o.path value) else none
    | [] => none

/-- Read the lines of a document. Blank lines are skipped. -/
def readLines : List Open → List (List Char) → Option (List Event)
  | _, [] => some []
  | opened, l :: ls =>
    if l.all isBlank then readLines opened ls
    else do
      let line ← parseLine l
      let (opened', e) ← place opened line
      let es ← readLines opened' ls
      return e :: es

/-- Read a document; `none` if it is malformed. -/
def read (text : List Char) : Option (List Event) := readLines [] (text.splitOn '\n')

/-- The scalar at `path`. -/
def scalarAt (es : List Event) (path : List Char) : Option (List Char) :=
  es.findSome? fun
    | .scalar p value => if p = path then some value else none
    | .item _ _ => none

/-- The items at `path`. -/
def itemsAt (es : List Event) (path : List Char) : List (List Char) :=
  es.filterMap fun
    | .scalar _ _ => none
    | .item p value => if p = path then some value else none

/-! ### What is read is plain -/

theorem value_of_place {opened opened' : List Open} {line : Line} {e : Event}
    (h : place opened line = some (opened', e)) : e.value = line.entry.value := by
  unfold place at h
  split at h
  · next key value hentry =>
    obtain ⟨path, -, heq⟩ := Option.map_eq_some_iff.mp h
    simp only [Prod.mk.injEq] at heq
    rw [← heq.2, hentry]
    rfl
  · next value hentry =>
    split at h
    · simp only [Option.ite_none_right_eq_some, Option.some.injEq, Prod.mk.injEq] at h
      rw [← h.2.2, hentry]
      rfl
    · cases h

theorem plain_of_readLines {opened : List Open} {ls : List (List Char)} {es : List Event}
    (hls : ∀ l ∈ ls, '\n' ∉ l) (h : readLines opened ls = some es) :
    ∀ e ∈ es, Plain e.value := by
  induction ls generalizing opened es with
  | nil =>
    obtain rfl := Option.some.inj h
    simp
  | cons l ls ih =>
    have hls' : ∀ l ∈ ls, '\n' ∉ l := fun l' hl' => hls l' (by simp [hl'])
    unfold readLines at h
    -- a blank line is skipped, any other is parsed and placed
    split at h
    · exact ih hls' h
    · obtain ⟨line, hline, h⟩ := Option.bind_eq_some_iff.mp h
      obtain ⟨⟨opened', e⟩, hplace, h⟩ := Option.bind_eq_some_iff.mp h
      obtain ⟨es', hes', h⟩ := Option.bind_eq_some_iff.mp h
      obtain rfl := Option.some.inj h
      refine List.forall_mem_cons.mpr ⟨?_, ih hls' hes'⟩
      rw [value_of_place hplace]
      exact plain_of_parseLine (hls l (by simp)) hline

/-- The pieces of a split hold no separator. -/
theorem not_mem_of_mem_splitOn {α : Type*} [BEq α] [LawfulBEq α] {a : α} {l : List α} :
    ∀ piece ∈ l.splitOn a, a ∉ piece := by
  induction l with
  | nil => simp [List.splitOn_nil]
  | cons b l ih =>
    rw [List.splitOn_cons_eq_if_modifyHead]
    split
    · exact List.forall_mem_cons.mpr ⟨List.not_mem_nil, ih⟩
    -- another element is put in front of the first piece
    · next hba =>
      cases hl : l.splitOn a with
      | nil => simp
      | cons piece pieces =>
        rw [hl] at ih
        have hhead := ih piece (by simp)
        have hab : a ≠ b := fun h => hba (by simp [h])
        exact List.forall_mem_cons.mpr
          ⟨by simp [hab, hhead], fun piece' h => ih piece' (by simp [h])⟩

/-- **Whatever the document, its scalars and items are plain.** -/
theorem read_plain {text : List Char} {es : List Event} (h : read text = some es) :
    ∀ e ∈ es, Plain e.value :=
  plain_of_readLines not_mem_of_mem_splitOn h

theorem plain_of_scalarAt {text path value : List Char} {es : List Event}
    (h : read text = some es) (hat : scalarAt es path = some value) : Plain value := by
  obtain ⟨e, he, hvalue⟩ := List.exists_of_findSome?_eq_some hat
  cases e with
  | scalar p v =>
    simp only [Option.ite_none_right_eq_some, Option.some.injEq] at hvalue
    obtain ⟨-, rfl⟩ := hvalue
    exact read_plain h _ he
  | item p v => cases hvalue

/-! ### What is written is read -/

/-- The line `key: value`. -/
def pairLine (n : Nat) (key value : List Char) : List Char :=
  List.replicate n ' ' ++ (key ++ ':' :: ' ' :: value)

/-- The line `key:`, in front of a map or a list. -/
def headLine (n : Nat) (key : List Char) : List Char := List.replicate n ' ' ++ (key ++ [':'])

/-- The line `- value`. -/
def itemLine (n : Nat) (value : List Char) : List Char :=
  List.replicate n ' ' ++ ('-' :: ' ' :: value)

theorem IsKey.head?_ne {key : List Char} (h : IsKey key) (rest : List Char) :
    (key ++ rest).head? ≠ some ' ' := by
  cases key with
  | nil => exact absurd rfl h.ne_nil
  | cons c key =>
    intro hc
    obtain rfl : c = ' ' := by simpa using hc
    exact Bool.noConfusion (h.symbols ' ' (by simp)).1

theorem trim_blank_cons {value : List Char} (h : Plain value) : trim (' ' :: value) = value := by
  rw [trim_cons_blank rfl, h.trimmed]

theorem parseLine_pairLine {n : Nat} {key value : List Char} (hkey : IsKey key)
    (hvalue : Plain value) : parseLine (pairLine n key value) = some ⟨n, .pair key value⟩ := by
  refine parseLine_indented (hkey.head?_ne _) ?_
  rw [parseEntry_key hkey rfl, trim_blank_cons hvalue]

theorem parseLine_headLine {n : Nat} {key : List Char} (hkey : IsKey key) :
    parseLine (headLine n key) = some ⟨n, .pair key []⟩ :=
  parseLine_indented (hkey.head?_ne _) (parseEntry_key hkey rfl)

theorem parseLine_itemLine {n : Nat} {value : List Char} (hvalue : Plain value) :
    parseLine (itemLine n value) = some ⟨n, .item value⟩ := by
  refine parseLine_indented (by simp) ?_
  rw [parseEntry_item rfl, trim_blank_cons hvalue]

/-- A line that is not blank is placed, and the rest is read under what it leaves open. -/
theorem readLines_cons {opened opened' : List Open} {l : List Char} {ls : List (List Char)}
    {line : Line} {e : Event} {es : List Event} {c : Char} (hc : c ∈ l) (hblank : isBlank c = false)
    (hline : parseLine l = some line) (hplace : place opened line = some (opened', e))
    (hrest : readLines opened' ls = some es) : readLines opened (l :: ls) = some (e :: es) := by
  have hnot : ¬ l.all isBlank = true := by
    intro hall
    exact Bool.noConfusion (hblank.symm.trans (List.all_eq_true.mp hall c hc))
  simp [readLines, hnot, hline, hplace, hrest]

/-- The items of a list, directly under its key. -/
theorem readLines_items {o : Open} {outer : List Open} {k : Nat} {values : List (List Char)}
    {ls : List (List Char)} {es : List Event} (hnests : o.nests = true) (hindent : o.indent ≤ k)
    (hvalues : ∀ v ∈ values, Plain v) (hrest : readLines (o :: outer) ls = some es) :
    readLines (o :: outer) (values.map (itemLine k) ++ ls) =
      some (values.map (Event.item o.path) ++ es) := by
  induction values with
  | nil => exact hrest
  | cons v values ih =>
    have ih' := ih fun v' hv' => hvalues v' (by simp [hv'])
    have hkept : ¬ k < o.indent := Nat.not_lt.mpr hindent
    refine readLines_cons (c := '-') (by simp [itemLine]) rfl
      (parseLine_itemLine (hvalues v (by simp))) ?_ ih'
    simp [place, hkept, hnests]

theorem outerAt_outerAt {m n : Nat} (h : m ≤ n) (opened : List Open) :
    outerAt m (outerAt n opened) = outerAt m opened := by
  induction opened with
  | nil => rfl
  | cons o opened ih =>
    by_cases hn : n ≤ o.indent
    · have hm : m ≤ o.indent := h.trans hn
      simpa [outerAt, hn, hm] using ih
    · simp [outerAt, hn]

/-- The lines `ls` are read as `es` where a line at indentation `n` finds the keys `outer` open. -/
structure Reads (n : Nat) (outer : List Open) (ls : List (List Char)) (es : List Event) : Prop where
  one_line : ∀ l ∈ ls, '\n' ∉ l
  events : ∀ opened, outerAt n opened = outer → readLines opened ls = some es

variable {m n k : Nat} {outer : List Open} {key value path : List Char} {ls : List (List Char)}
  {es : List Event}

theorem one_line_pairLine (hkey : IsKey key) (hvalue : Plain value) :
    '\n' ∉ pairLine n key value := by
  simp [pairLine, hkey.plain.one_line, hvalue.one_line]

theorem one_line_headLine (hkey : IsKey key) : '\n' ∉ headLine n key := by
  simp [headLine, hkey.plain.one_line]

theorem one_line_itemLine (hvalue : Plain value) : '\n' ∉ itemLine n value := by
  simp [itemLine, hvalue.one_line]

/-- What follows the last newline is a blank line. -/
theorem Reads.finish : Reads n outer [[]] [] where
  one_line := by simp
  events _ _ := by simp [readLines]

/-- A key with a scalar. -/
theorem Reads.pair (hkey : IsKey key) (hvalue : Plain value)
    (hpath : pathUnder outer key = some path) (hrest : Reads n outer ls es) :
    Reads n outer (pairLine n key value :: ls) (.scalar path value :: es) where
  one_line := List.forall_mem_cons.mpr ⟨one_line_pairLine hkey hvalue, hrest.one_line⟩
  events := by
    rintro opened rfl
    have hplace : place opened ⟨n, .pair key value⟩ =
        some (⟨n, path, value.isEmpty⟩ :: outerAt n opened, .scalar path value) := by
      simp only [place, hpath, Option.map_some]
    -- the next line closes this key
    have hnext : outerAt n (⟨n, path, value.isEmpty⟩ :: outerAt n opened) = outerAt n opened := by
      simpa [outerAt] using outerAt_outerAt (Nat.le_refl n) opened
    exact readLines_cons (c := ':') (by simp [pairLine]) rfl (parseLine_pairLine hkey hvalue) hplace
      (hrest.events _ hnext)

theorem place_head (hpath : pathUnder (outerAt n outer) key = some path) :
    place outer ⟨n, .pair key []⟩ = some (⟨n, path, true⟩ :: outerAt n outer, .scalar path []) := by
  simp only [place, hpath, Option.map_some, List.isEmpty_nil]

/-- A key with a map, whose lines are indented by `k`. -/
theorem Reads.head (hkey : IsKey key) (hpath : pathUnder outer key = some path) (hnk : n < k)
    (hrest : Reads k (⟨n, path, true⟩ :: outer) ls es) :
    Reads n outer (headLine n key :: ls) (.scalar path [] :: es) where
  one_line := List.forall_mem_cons.mpr ⟨one_line_headLine hkey, hrest.one_line⟩
  events := by
    rintro opened rfl
    -- the lines of the map do not close their key
    have hnext : outerAt k (⟨n, path, true⟩ :: outerAt n opened) =
        ⟨n, path, true⟩ :: outerAt n opened := by
      simp [outerAt, Nat.not_le.mpr hnk]
    exact readLines_cons (c := ':') (by simp [headLine]) rfl (parseLine_headLine hkey)
      (place_head hpath) (hrest.events _ hnext)

/-- The lines of a list, none if it is empty. -/
def listLines (n : Nat) (key : List Char) (k : Nat) (values : List (List Char)) :
    List (List Char) :=
  if values = [] then [] else headLine n key :: values.map (itemLine k)

/-- What they are read as. -/
def listEvents (path : List Char) (values : List (List Char)) : List Event :=
  if values = [] then [] else .scalar path [] :: values.map (Event.item path)

/-- A key with a list. -/
theorem Reads.list {values : List (List Char)} (hkey : IsKey key)
    (hvalues : ∀ v ∈ values, Plain v) (hpath : pathUnder outer key = some path) (hnk : n ≤ k)
    (hrest : Reads n outer ls es) :
    Reads n outer (listLines n key k values ++ ls) (listEvents path values ++ es) := by
  unfold listLines listEvents
  -- an empty list is not written at all
  split
  · exact hrest
  · refine ⟨?_, ?_⟩
    · simp only [List.forall_mem_append, List.forall_mem_cons, List.forall_mem_map]
      exact ⟨⟨one_line_headLine hkey, fun v hv => one_line_itemLine (hvalues v hv)⟩,
        hrest.one_line⟩
    · rintro opened rfl
      have hnext : outerAt n (⟨n, path, true⟩ :: outerAt n opened) = outerAt n opened := by
        simpa [outerAt] using outerAt_outerAt (Nat.le_refl n) opened
      exact readLines_cons (c := ':') (by simp [headLine]) rfl (parseLine_headLine hkey)
        (place_head hpath) (readLines_items rfl hnk hvalues (hrest.events _ hnext))

/-- The end of a map: the following lines are less indented. -/
theorem Reads.dedent (hmn : m ≤ n) (hrest : Reads m (outerAt m outer) ls es) :
    Reads n outer ls es where
  one_line := hrest.one_line
  events := by
    rintro opened rfl
    exact hrest.events opened (outerAt_outerAt hmn opened).symm

/-- The text of a list of lines, each with its newline. -/
def unlines (ls : List (List Char)) : List Char := ls.flatMap (· ++ ['\n'])

theorem splitOn_unlines {ls : List (List Char)} (h : ∀ l ∈ ls, '\n' ∉ l) :
    (unlines ls).splitOn '\n' = ls ++ [[]] := by
  induction ls with
  | nil => simp [unlines]
  | cons l ls ih =>
    have ih' := ih fun l' hl' => h l' (by simp [hl'])
    have htext : unlines (l :: ls) = l ++ '\n' :: unlines ls := by simp [unlines]
    rw [htext, List.splitOn_append_cons_self_of_not_mem (h l (by simp)), ih']
    rfl

/-- **A text of lines that are read is read.** -/
theorem read_unlines (h : Reads 0 [] (ls ++ [[]]) es) : read (unlines ls) = some es := by
  rw [read, splitOn_unlines fun l hl => h.one_line l (List.mem_append_left _ hl)]
  exact h.events [] rfl

/-! ### Looking up a path -/

@[simp] theorem scalarAt_nil : scalarAt [] path = none := rfl

@[simp] theorem scalarAt_scalar (p v : List Char) :
    scalarAt (.scalar p v :: es) path = if p = path then some v else scalarAt es path := by
  unfold scalarAt
  rw [List.findSome?_cons]
  split
  · next h => simp_all
  · next h => simp_all

@[simp] theorem scalarAt_append (es' : List Event) :
    scalarAt (es ++ es') path = (scalarAt es path).or (scalarAt es' path) :=
  List.findSome?_append

@[simp] theorem itemsAt_nil : itemsAt [] path = [] := rfl

@[simp] theorem itemsAt_scalar (p v : List Char) :
    itemsAt (.scalar p v :: es) path = itemsAt es path := by
  simp [itemsAt]

@[simp] theorem itemsAt_append (es' : List Event) :
    itemsAt (es ++ es') path = itemsAt es path ++ itemsAt es' path :=
  List.filterMap_append

theorem scalarAt_items (p : List Char) (values : List (List Char)) :
    scalarAt (values.map (Event.item p)) path = none := by
  simp [scalarAt, List.findSome?_eq_none_iff]

theorem itemsAt_items (p : List Char) (values : List (List Char)) :
    itemsAt (values.map (Event.item p)) path = if p = path then values else [] := by
  split
  · next h => simp [itemsAt, List.filterMap_map, h]
  · next h => simp [itemsAt, h]

@[simp] theorem scalarAt_listEvents (p : List Char) (values : List (List Char)) :
    scalarAt (listEvents p values) path = if p = path ∧ values ≠ [] then some [] else none := by
  unfold listEvents
  split
  · next h => simp [h]
  · next h => simp [scalarAt_items, h]

@[simp] theorem itemsAt_listEvents (p : List Char) (values : List (List Char)) :
    itemsAt (listEvents p values) path = if p = path then values else [] := by
  unfold listEvents
  split
  · next h => simp [h]
  · simp [itemsAt_items]

/-! ### Signed decimal integers -/

def natural (l : List Char) : Option Nat :=
  if l ≠ [] ∧ l.all Char.isDigit then some (Nat.ofDigitChars 10 l 0) else none

def integer : List Char → Option Int
  | '-' :: ds => (natural ds).map fun n => -(n : Int)
  | ds => (natural ds).map Int.ofNat

theorem natural_repr (n : Nat) : natural (Nat.repr n).toList = some n := by
  have hdigits : (Nat.repr n).toList.all Char.isDigit = true :=
    List.all_eq_true.mpr fun c hc => Labelled.isDigit_of_mem_repr hc
  rw [natural, if_pos ⟨Labelled.repr_ne_nil n, hdigits⟩, Nat.toList_repr,
    Nat.ofDigitChars_ten_toDigits]

/-- **A numeral is read as the integer that it was written for.** -/
theorem integer_toString (z : Int) : integer (toString z).toList = some z := by
  rw [Labelled.toList_toString_int]
  split
  · next hz =>
    -- a nonnegative number is written without a sign
    have hnat : integer (Nat.repr z.toNat).toList =
        (natural (Nat.repr z.toNat).toList).map .ofNat := by
      unfold integer
      split
      · next ds heq => exact absurd heq Labelled.repr_ne_minus_cons
      · rfl
    rw [hnat, natural_repr]
    exact congrArg some (Int.toNat_of_nonneg hz)
  · next hz =>
    have hneg : ((-z).toNat : Int) = -z := Int.toNat_of_nonneg (by omega)
    have hint : integer ('-' :: (Nat.repr (-z).toNat).toList) = some (-((-z).toNat : Int)) := by
      rw [integer, natural_repr]
      rfl
    rw [hint, hneg, Int.neg_neg]

theorem plain_toString_int (z : Int) : Plain (toString z).toList := by
  refine plain_of_forall fun c hc => ?_
  have hnumeral := Labelled.isNumeral_of_mem_toString hc
  constructor
  · by_contra hblank
    simp only [isBlank, Bool.not_eq_false, Bool.or_eq_true, beq_iff_eq] at hblank
    rcases hblank with rfl | rfl <;> exact absurd hnumeral (by decide)
  · rintro rfl
    exact absurd hnumeral (by decide)

end BlockYaml
