import Amio.Lib.Binary64
import Mathlib.Data.List.TakeWhile

/-!
# The numbers of `strtod`

The texts that the C function `strtod` takes for numbers, in the "C" locale, and what it makes of
them. The grammar comes first: white space and a sign, then a decimal or hexadecimal significand
with its exponent, or one of the words `inf`, `infinity`, `nan` and `nan(...)` in any case. `strtod`
is the scanner, which takes the longest such text it finds at the beginning of a string and leaves
the rest; it converts the exact value to binary64 by rounding.

`denotes_of_strtod` and `strtod_of_denotes` compare the two on strings that are a number up to white
space: the scanner reads to the end of exactly those, and returns the rounding of the number that
the grammar gives them.

Strings are lists of characters without the terminating NUL.
-/

namespace Strtod

/-! ### Characters -/

/-- `isspace`. -/
def isSpace (c : Char) : Bool :=
  [' ', '\t', '\n', '\x0b', '\x0c', '\r'].contains c

def isHexDigit (c : Char) : Bool :=
  "0123456789abcdefABCDEF".toList.contains c

/-- The marks of a decimal and of a binary exponent. -/
def isE (c : Char) : Bool := c == 'e' || c == 'E'

def isP (c : Char) : Bool := c == 'p' || c == 'P'

/-- The characters that may stand in the parentheses of a NaN. -/
def isNChar (c : Char) : Bool := c.isAlphanum || c == '_'

/-- The value of a digit, decimal or hexadecimal. -/
def digitValue (c : Char) : Nat :=
  if c.isDigit then c.toNat - 48
  else if c.isLower then c.toNat - 87
  else c.toNat - 55

/-- The number that a sequence of digits spells. -/
def digitsValue (base : Nat) (ds : List Char) : Nat :=
  ds.foldl (fun n c => n * base + digitValue c) 0

/-! ### The grammar -/

/-- What a text denotes, without its sign; finite values are exact. -/
inductive Magnitude
  | finite (value : ℚ)
  | infinite
  | nan
  deriving DecidableEq

inductive Sign : List Char → Bool → Prop
  | none : Sign [] false
  | plus : Sign ['+'] false
  | minus : Sign ['-'] true

/-- A significand, with its digits before and after the point. -/
inductive Significand (isDig : Char → Bool) : List Char → List Char → List Char → Prop
  | whole {i : List Char} (digits : ∀ c ∈ i, isDig c = true) (ne : i ≠ []) :
      Significand isDig i i []
  | point {i f : List Char} (digits : ∀ c ∈ i, isDig c = true)
      (fraction : ∀ c ∈ f, isDig c = true) (ne : ¬ (i = [] ∧ f = [])) :
      Significand isDig (i ++ '.' :: f) i f

/-- An exponent part, which may be left out. Its digits are decimal in any case. -/
inductive Exponent (isMark : Char → Bool) : List Char → ℤ → Prop
  | absent : Exponent isMark [] 0
  | present {c : Char} {sgn d : List Char} {negative : Bool} (mark : isMark c = true)
      (sign : Sign sgn negative) (digits : ∀ c ∈ d, c.isDigit = true) (ne : d ≠ []) :
      Exponent isMark (c :: (sgn ++ d))
        (if negative then -(digitsValue 10 d : ℤ) else digitsValue 10 d)

/-- The value of a decimal significand with its exponent. -/
def decimalValue (i f : List Char) (e : ℤ) : ℚ :=
  digitsValue 10 (i ++ f) * 10 ^ (e - f.length)

/-- The value of a hexadecimal significand with its binary exponent. -/
def hexValue (i f : List Char) (e : ℤ) : ℚ :=
  digitsValue 16 (i ++ f) * 2 ^ (e - 4 * f.length)

/-- The texts that denote a number, but for the sign. -/
inductive Subject : List Char → Magnitude → Prop
  | decimal {m x i f : List Char} {e : ℤ} (significand : Significand Char.isDigit m i f)
      (exponent : Exponent isE x e) : Subject (m ++ x) (.finite (decimalValue i f e))
  | hexadecimal {c : Char} {m x i f : List Char} {e : ℤ} (mark : c = 'x' ∨ c = 'X')
      (significand : Significand isHexDigit m i f) (exponent : Exponent isP x e) :
      Subject ('0' :: c :: (m ++ x)) (.finite (hexValue i f e))
  | inf {t : List Char} (word : t.map Char.toLower = ['i', 'n', 'f']) : Subject t .infinite
  | infinity {t u : List Char} (word : t.map Char.toLower = ['i', 'n', 'f'])
      (rest : u.map Char.toLower = ['i', 'n', 'i', 't', 'y']) : Subject (t ++ u) .infinite
  | nan {t : List Char} (word : t.map Char.toLower = ['n', 'a', 'n']) : Subject t .nan
  | nanChars {t n : List Char} (word : t.map Char.toLower = ['n', 'a', 'n'])
      (chars : ∀ c ∈ n, isNChar c = true) : Subject (t ++ '(' :: (n ++ [')'])) .nan

/-- The whole string is a number, up to white space around it. -/
inductive Denotes : List Char → Bool → Magnitude → Prop
  | intro {a sgn t b : List Char} {negative : Bool} {m : Magnitude}
      (before : ∀ c ∈ a, isSpace c = true) (sign : Sign sgn negative) (subject : Subject t m)
      (after : ∀ c ∈ b, isSpace c = true) : Denotes (a ++ (sgn ++ (t ++ b))) negative m

/-! ### The scanner -/

def scanSign : List Char → Bool × List Char
  | '-' :: r => (true, r)
  | '+' :: r => (false, r)
  | r => (false, r)

/-- The digits before and after the point, and the rest. -/
def scanSignificand (isDig : Char → Bool) (s : List Char) :
    Option (List Char × List Char × List Char) :=
  match s.dropWhile isDig with
  | '.' :: r =>
    if s.takeWhile isDig = [] ∧ r.takeWhile isDig = [] then none
    else some (s.takeWhile isDig, r.takeWhile isDig, r.dropWhile isDig)
  | r => if s.takeWhile isDig = [] then none else some (s.takeWhile isDig, [], r)

/-- The exponent, and the rest. A mark without digits is not an exponent part. -/
def scanExponent (isMark : Char → Bool) : List Char → ℤ × List Char
  | [] => (0, [])
  | c :: r =>
    let d := (scanSign r).2.takeWhile Char.isDigit
    if isMark c = true ∧ d ≠ [] then
      (if (scanSign r).1 then -(digitsValue 10 d : ℤ) else digitsValue 10 d,
        (scanSign r).2.dropWhile Char.isDigit)
    else (0, c :: r)

def scanDecimal (s : List Char) : Option (Magnitude × List Char) :=
  (scanSignificand Char.isDigit s).map fun (i, f, r) =>
    (.finite (decimalValue i f (scanExponent isE r).1), (scanExponent isE r).2)

def scanHexadecimal : List Char → Option (Magnitude × List Char)
  | '0' :: c :: s =>
    if c = 'x' ∨ c = 'X' then
      (scanSignificand isHexDigit s).map fun (i, f, r) =>
        (.finite (hexValue i f (scanExponent isP r).1), (scanExponent isP r).2)
    else none
  | _ => none

/-- The rest after a word, which is read in any case. -/
def scanWord (word s : List Char) : Option (List Char) :=
  if (s.take word.length).map Char.toLower = word then some (s.drop word.length) else none

/-- The rest after the parentheses of a NaN, if they are there. -/
def skipNChars (s : List Char) : List Char :=
  match s with
  | '(' :: r =>
    match r.dropWhile isNChar with
    | ')' :: r' => r'
    | _ => s
  | _ => s

def scanInfinity (s : List Char) : Option (Magnitude × List Char) :=
  (scanWord ['i', 'n', 'f'] s).map fun r =>
    (.infinite, (scanWord ['i', 'n', 'i', 't', 'y'] r).getD r)

def scanNan (s : List Char) : Option (Magnitude × List Char) :=
  (scanWord ['n', 'a', 'n'] s).map fun r => (.nan, skipNChars r)

/-- The longest number at the beginning of a string, which has no sign any more. -/
def scanSubject (s : List Char) : Option (Magnitude × List Char) :=
  (scanHexadecimal s).or ((scanDecimal s).or ((scanInfinity s).or (scanNan s)))

/-- The conversion to binary64. -/
def Magnitude.round (negative : Bool) : Magnitude → Double
  | .finite q => Binary64.round negative q
  | .infinite => .infinity negative
  | .nan => .nan

/-- `strtod`: the value, and the rest of the string, which is the whole string if there is no
number. -/
def strtod (s : List Char) : Double × List Char :=
  let (negative, u) := scanSign (s.dropWhile isSpace)
  match scanSubject u with
  | some (m, r) => (m.round negative, r)
  | none => (.finite 0, s)

variable {isDig isMark : Char → Bool} {s i f r t b : List Char} {m : Magnitude} {negative : Bool}

/-! ### What is scanned is a number -/

theorem sign_of_scan (s : List Char) :
    ∃ sgn, s = sgn ++ (scanSign s).2 ∧ Sign sgn (scanSign s).1 := by
  unfold scanSign
  split
  · exact ⟨['-'], rfl, .minus⟩
  · exact ⟨['+'], rfl, .plus⟩
  · exact ⟨[], rfl, .none⟩

theorem takeWhile_all (p : Char → Bool) (s : List Char) : ∀ c ∈ s.takeWhile p, p c = true :=
  fun _ hc => List.mem_takeWhile_imp hc

theorem significand_of_scan (h : scanSignificand isDig s = some (i, f, r)) :
    ∃ m, s = m ++ r ∧ Significand isDig m i f := by
  have hs := List.takeWhile_append_dropWhile (p := isDig) (l := s)
  unfold scanSignificand at h
  split at h
  -- with a decimal point, and without one
  · next r' hpoint =>
    split at h
    · cases h
    · next hne =>
      obtain ⟨rfl, rfl, rfl⟩ := by simpa using h
      refine ⟨s.takeWhile isDig ++ '.' :: r'.takeWhile isDig, ?_,
        .point (takeWhile_all isDig s) (takeWhile_all isDig r') hne⟩
      rw [List.append_assoc, List.cons_append, List.takeWhile_append_dropWhile, ← hpoint, hs]
  · split at h
    · cases h
    · next hne =>
      obtain ⟨rfl, rfl, rfl⟩ := by simpa using h
      exact ⟨s.takeWhile isDig, hs.symm, .whole (takeWhile_all isDig s) hne⟩

theorem exponent_of_scan (isMark : Char → Bool) (s : List Char) :
    ∃ x, s = x ++ (scanExponent isMark s).2 ∧ Exponent isMark x (scanExponent isMark s).1 := by
  unfold scanExponent
  split
  · exact ⟨[], rfl, .absent⟩
  · next c r =>
    obtain ⟨sgn, hr, hsign⟩ := sign_of_scan r
    simp only
    split
    · next hdigits =>
      refine ⟨c :: (sgn ++ (scanSign r).2.takeWhile Char.isDigit), ?_,
        .present hdigits.1 hsign (takeWhile_all _ _) hdigits.2⟩
      rw [List.cons_append, List.append_assoc, List.takeWhile_append_dropWhile, ← hr]
    · exact ⟨[], rfl, .absent⟩

theorem word_of_scan {word : List Char} (h : scanWord word s = some r) :
    ∃ t, s = t ++ r ∧ t.map Char.toLower = word := by
  simp only [scanWord, Option.ite_none_right_eq_some, Option.some.injEq] at h
  obtain ⟨hword, rfl⟩ := h
  exact ⟨s.take word.length, (List.take_append_drop _ _).symm, hword⟩

/-- The parentheses are passed over, or nothing is. -/
theorem nChars_of_skip (s : List Char) : skipNChars s = s ∨
    ∃ n, s = '(' :: (n ++ [')']) ++ skipNChars s ∧ ∀ c ∈ n, isNChar c = true := by
  unfold skipNChars
  split
  · next r =>
    split
    · next r' hclose =>
      refine .inr ⟨r.takeWhile isNChar, ?_, takeWhile_all _ _⟩
      have hr := List.takeWhile_append_dropWhile (p := isNChar) (l := r)
      rw [hclose] at hr
      simp [hr]
    · exact .inl rfl
  · exact .inl rfl

/-- What the scanner takes from the beginning of a string is a number with the value it returns. -/
theorem subject_of_scan (h : scanSubject s = some (m, r)) : ∃ t, s = t ++ r ∧ Subject t m := by
  unfold scanSubject at h
  simp only [Option.or_eq_some_iff] at h
  rcases h with hhex | ⟨-, hdecimal | ⟨-, hinf | ⟨-, hnan⟩⟩⟩
  · unfold scanHexadecimal at hhex
    split at hhex
    · next c rest =>
      split at hhex
      · next hmark =>
        obtain ⟨⟨i, f, r'⟩, hsig, heq⟩ := Option.map_eq_some_iff.mp hhex
        obtain ⟨rfl, rfl⟩ := Prod.mk.inj heq
        obtain ⟨t, ht, hsignificand⟩ := significand_of_scan hsig
        obtain ⟨x, hx, hexponent⟩ := exponent_of_scan isP r'
        refine ⟨'0' :: c :: (t ++ x), ?_, .hexadecimal hmark hsignificand hexponent⟩
        rw [List.cons_append, List.cons_append, List.append_assoc, ← hx, ← ht]
      · cases hhex
    · cases hhex
  · obtain ⟨⟨i, f, r'⟩, hsig, heq⟩ := Option.map_eq_some_iff.mp hdecimal
    obtain ⟨rfl, rfl⟩ := Prod.mk.inj heq
    obtain ⟨t, ht, hsignificand⟩ := significand_of_scan hsig
    obtain ⟨x, hx, hexponent⟩ := exponent_of_scan isE r'
    exact ⟨t ++ x, by rw [List.append_assoc, ← hx, ← ht], .decimal hsignificand hexponent⟩
  · obtain ⟨r', hword, heq⟩ := Option.map_eq_some_iff.mp hinf
    obtain ⟨rfl, rfl⟩ := Prod.mk.inj heq
    obtain ⟨t, rfl, ht⟩ := word_of_scan hword
    -- the longer word, if it is there
    cases hrest : scanWord ['i', 'n', 'i', 't', 'y'] r' with
    | none => exact ⟨t, rfl, .inf ht⟩
    | some r'' =>
      obtain ⟨u, rfl, hu⟩ := word_of_scan hrest
      exact ⟨t ++ u, (List.append_assoc t u r'').symm, .infinity ht hu⟩
  · obtain ⟨r', hword, heq⟩ := Option.map_eq_some_iff.mp hnan
    obtain ⟨rfl, rfl⟩ := Prod.mk.inj heq
    obtain ⟨t, rfl, ht⟩ := word_of_scan hword
    rcases nChars_of_skip r' with hsame | ⟨n, hn, hchars⟩
    · exact ⟨t, by rw [hsame], .nan ht⟩
    · refine ⟨t ++ '(' :: (n ++ [')']), ?_, .nanChars ht hchars⟩
      rw [List.append_assoc, ← hn]

/-- A scan that leaves nothing but white space has read a number, unless there was nothing but white
space to begin with. -/
theorem denotes_of_strtod {d : Double} (h : strtod s = (d, r))
    (hrest : ∀ c ∈ r, isSpace c = true) :
    (∃ negative m, Denotes s negative m ∧ d = m.round negative) ∨
      ((∀ c ∈ s, isSpace c = true) ∧ d = .finite 0) := by
  unfold strtod at h
  simp only at h
  split at h
  · next m r' hscan =>
    obtain ⟨rfl, rfl⟩ := Prod.mk.inj h
    obtain ⟨t, ht, hsubject⟩ := subject_of_scan hscan
    obtain ⟨sgn, hsgn, hsign⟩ := sign_of_scan (s.dropWhile isSpace)
    have hs : s.takeWhile isSpace ++ (sgn ++ (t ++ r')) = s := by
      rw [← ht, ← hsgn, List.takeWhile_append_dropWhile]
    have hdenotes := Denotes.intro (takeWhile_all isSpace s) hsign hsubject hrest
    rw [hs] at hdenotes
    exact .inl ⟨_, m, hdenotes, rfl⟩
  · obtain ⟨rfl, rfl⟩ := Prod.mk.inj h
    exact .inr ⟨hrest, rfl⟩

/-! ### A number is scanned to its end -/

/-- What may stand after a part of a number: nothing, or a character that does not belong to it. -/
def Stops (p : Char → Bool) (s : List Char) : Prop := ∀ c ∈ s.head?, p c = false

theorem span_of_stops {p : Char → Bool} {d r : List Char} (hd : ∀ c ∈ d, p c = true)
    (hr : Stops p r) : (d ++ r).takeWhile p = d ∧ (d ++ r).dropWhile p = r := by
  rw [List.takeWhile_append_of_pos hd, List.dropWhile_append_of_pos hd]
  cases r with
  | nil => simp
  | cons c r =>
    have hc : p c = false := hr c (by simp)
    simp [hc]

/-- A character that is no part of a number. -/
structure Apart (c : Char) : Prop where
  digit : c.isDigit = false
  hexDigit : isHexDigit c = false
  decimalMark : isE c = false
  binaryMark : isP c = false
  point : c ≠ '.'
  paren : c ≠ '('
  hexMark : c ≠ 'x' ∧ c ≠ 'X'
  letter : c.toLower ≠ 'i'

theorem apart_of_space {c : Char} (h : isSpace c = true) : Apart c := by
  simp only [isSpace, List.contains_eq_mem, decide_eq_true_eq, List.mem_cons, List.not_mem_nil,
    or_false] at h
  rcases h with rfl | rfl | rfl | rfl | rfl | rfl <;> constructor <;> decide

/-- What follows a number does not begin with a part of one. -/
theorem apart_head (hb : ∀ c ∈ b, isSpace c = true) : ∀ c ∈ b.head?, Apart c :=
  fun c hc => apart_of_space (hb c (List.mem_of_mem_head? hc))

theorem scan_sign {sgn : List Char} (h : Sign sgn negative)
    (hr : ∀ c ∈ r.head?, c ≠ '-' ∧ c ≠ '+') : scanSign (sgn ++ r) = (negative, r) := by
  cases h with
  | plus | minus => rfl
  | none =>
    rw [List.nil_append]
    unfold scanSign
    split
    · exact absurd rfl (hr '-' (by simp)).1
    · exact absurd rfl (hr '+' (by simp)).2
    · rfl

theorem scan_significand (h : Significand isDig t i f) (hpoint : isDig '.' = false)
    (hr : ∀ c ∈ r.head?, isDig c = false ∧ c ≠ '.') :
    scanSignificand isDig (t ++ r) = some (i, f, r) := by
  cases h with
  -- digits without a point, and none follows
  | whole digits ne =>
    obtain ⟨htake, hdrop⟩ := span_of_stops digits fun c hc => (hr c hc).1
    unfold scanSignificand
    rw [hdrop, htake]
    split
    · exact absurd rfl (hr '.' rfl).2
    · rw [if_neg ne]
  | point digits fraction ne =>
    -- the whole part ends at the point, the fraction with the digits
    have hstops : Stops isDig ('.' :: (f ++ r)) := by
      intro c hc
      obtain rfl := Option.some.inj hc
      exact hpoint
    obtain ⟨htake, hdrop⟩ := span_of_stops digits hstops
    obtain ⟨htake', hdrop'⟩ := span_of_stops fraction fun c hc => (hr c hc).1
    rw [List.append_assoc, List.cons_append]
    unfold scanSignificand
    rw [hdrop, htake]
    simp only
    rw [htake', hdrop', if_neg ne]

theorem scan_exponent {x : List Char} {e : ℤ} (h : Exponent isMark x e)
    (hb : ∀ c ∈ b.head?, c.isDigit = false ∧ isMark c = false) :
    scanExponent isMark (x ++ b) = (e, b) := by
  cases h with
  | absent =>
    cases b with
    | nil => rfl
    | cons c b =>
      -- what follows is no exponent mark
      have hc : isMark c = false := (hb c rfl).2
      simp [scanExponent, hc]
  | @present c sgn d negative mark sign digits ne =>
    -- the sign ends where the digits begin
    have hd : ∀ c ∈ (d ++ b).head?, c ≠ '-' ∧ c ≠ '+' := by
      obtain ⟨c, d, rfl⟩ := List.exists_cons_of_ne_nil ne
      rintro c' ⟨rfl⟩
      have hdigit := digits c List.mem_cons_self
      constructor <;> rintro rfl <;> exact absurd hdigit (by decide)
    have hsign : scanSign (sgn ++ (d ++ b)) = (negative, d ++ b) := scan_sign sign hd
    obtain ⟨htake, hdrop⟩ := span_of_stops digits fun c hc => (hb c hc).1
    rw [List.cons_append, List.append_assoc]
    unfold scanExponent
    simp only [hsign, htake, hdrop]
    rw [if_pos ⟨mark, ne⟩]

theorem scan_word {word : List Char} (h : t.map Char.toLower = word) :
    scanWord word (t ++ r) = some r := by
  have hlen : word.length = t.length := by rw [← h, List.length_map]
  simp [scanWord, hlen, h]

/-- A word does not begin with another letter. -/
theorem scan_word_none {c : Char} {word : List Char}
    (hs : ∀ c' ∈ s.head?, c'.toLower ≠ c) : scanWord (c :: word) s = none := by
  unfold scanWord
  refine if_neg fun h => ?_
  cases s with
  | nil => cases h
  | cons c' s => exact hs c' rfl (List.cons.inj h).1

theorem toLower_of_isDigit {c : Char} (h : c.isDigit = true) : c.toLower = c := by
  unfold Char.toLower
  refine dif_neg fun hupper => ?_
  simp only [Char.isDigit, Bool.and_eq_true, decide_eq_true_eq] at h
  exact absurd (UInt32.le_trans hupper.1 h.2) (by decide)

/-- A character that a number may begin with, after its sign. -/
structure Opening (c : Char) : Prop where
  space : isSpace c = false
  sign : c ≠ '-' ∧ c ≠ '+'

theorem opening_of_digit {c : Char} (h : c.isDigit = true) : Opening c where
  space := by
    by_contra hspace
    rw [(apart_of_space (by simpa using hspace)).digit] at h
    cases h
  sign := by constructor <;> rintro rfl <;> cases h

/-- The first letter of a word is no part of a number in digits. -/
structure WordStart (c : Char) : Prop extends Opening c where
  digit : c.isDigit = false
  zero : c ≠ '0'
  point : c ≠ '.'

theorem wordStart_of_toLower {c : Char} (h : c.toLower = 'i' ∨ c.toLower = 'n') : WordStart c where
  space := by
    by_contra hspace
    rw [Bool.not_eq_false] at hspace
    simp only [isSpace, List.contains_eq_mem, decide_eq_true_eq, List.mem_cons, List.not_mem_nil,
      or_false] at hspace
    rcases hspace with rfl | rfl | rfl | rfl | rfl | rfl <;> revert h <;> decide
  sign := by constructor <;> rintro rfl <;> revert h <;> decide
  digit := by
    by_contra hdigit
    rw [Bool.not_eq_false] at hdigit
    rw [toLower_of_isDigit hdigit] at h
    rcases h with rfl | rfl <;> cases hdigit
  zero := by
    rintro rfl
    revert h
    decide
  point := by
    rintro rfl
    revert h
    decide

theorem scanHexadecimal_none (h : ∀ c ∈ s, c ≠ 'x' ∧ c ≠ 'X') : scanHexadecimal s = none := by
  unfold scanHexadecimal
  split
  · next c s =>
    have hc := h c (by simp)
    rw [if_neg (by simp [hc.1, hc.2])]
  · rfl

theorem scanDecimal_none (h : ∀ c ∈ s.head?, c.isDigit = false ∧ c ≠ '.') :
    scanDecimal s = none := by
  have hstops : Stops Char.isDigit s := fun c hc => (h c hc).1
  obtain ⟨htake, hdrop⟩ := span_of_stops (d := []) (by simp) hstops
  rw [List.nil_append] at htake hdrop
  rw [scanDecimal, Option.map_eq_none_iff]
  unfold scanSignificand
  rw [hdrop, htake]
  split
  · exact absurd rfl (h '.' (by simp)).2
  · rw [if_pos rfl]

/-- The characters of a decimal number. -/
theorem decimal_chars {x : List Char} {e : ℤ} (hsig : Significand Char.isDigit t i f)
    (hexp : Exponent isE x e) : ∀ c ∈ t ++ x, c ≠ 'x' ∧ c ≠ 'X' := by
  -- no digit is an `x`, nor is a point, a mark or a sign
  have hdigit : ∀ c : Char, c.isDigit = true → c ≠ 'x' ∧ c ≠ 'X' := by
    intro c hc
    constructor <;> rintro rfl <;> cases hc
  intro c hc
  rcases List.mem_append.mp hc with hc | hc
  · cases hsig with
    | whole digits ne => exact hdigit c (digits c hc)
    | point digits fraction ne =>
      rcases List.mem_append.mp hc with hc | hc
      · exact hdigit c (digits c hc)
      · rcases List.mem_cons.mp hc with rfl | hc
        · decide
        · exact hdigit c (fraction c hc)
  · cases hexp with
    | absent => cases hc
    | present mark sign digits ne =>
      rcases List.mem_cons.mp hc with rfl | hc
      · constructor <;> rintro rfl <;> cases mark
      · rcases List.mem_append.mp hc with hc | hc
        · cases sign with
          | none => cases hc
          | plus | minus =>
            obtain rfl := List.mem_singleton.mp hc
            decide
        · exact hdigit c (digits c hc)

/-- What follows a significand: its exponent part, or what follows the number. -/
theorem exponent_head {x : List Char} {e : ℤ} (h : Exponent isMark x e)
    (hb : ∀ c ∈ b, isSpace c = true) : ∀ c ∈ (x ++ b).head?, isMark c = true ∨ Apart c := by
  intro c hc
  cases h with
  | absent => exact .inr (apart_head hb c hc)
  | present mark =>
    obtain rfl := Option.some.inj hc
    exact .inl mark

theorem decimal_mark {c : Char} (h : isE c = true) : c.isDigit = false ∧ c ≠ '.' := by
  simp only [isE, Bool.or_eq_true, beq_iff_eq] at h
  rcases h with rfl | rfl <;> decide

theorem binary_mark {c : Char} (h : isP c = true) : isHexDigit c = false ∧ c ≠ '.' := by
  simp only [isP, Bool.or_eq_true, beq_iff_eq] at h
  rcases h with rfl | rfl <;> decide

/-- The first letter of a word is that of the text. -/
theorem word_cons {c : Char} {word : List Char} (h : t.map Char.toLower = c :: word) :
    ∃ c' t', t = c' :: t' ∧ c'.toLower = c := by
  cases t with
  | nil => cases h
  | cons c' t => exact ⟨c', t, rfl, (List.cons.inj h).1⟩

theorem word_head {c : Char} {word : List Char} (h : t.map Char.toLower = c :: word) :
    ∀ c' ∈ (t ++ r).head?, c'.toLower = c := by
  obtain ⟨c', t, rfl, hc⟩ := word_cons h
  rintro _ ⟨rfl⟩
  exact hc

/-- A word is not taken for a number in digits. -/
theorem scan_none_of_letter {l : Char} (h : ∀ c ∈ s.head?, c.toLower = l)
    (hl : l = 'i' ∨ l = 'n') : scanHexadecimal s = none ∧ scanDecimal s = none := by
  have hstart : ∀ c ∈ s.head?, WordStart c :=
    fun c hc => wordStart_of_toLower (by rw [h c hc]; exact hl)
  constructor
  · unfold scanHexadecimal
    split
    · exact absurd rfl (hstart '0' rfl).zero
    · rfl
  · exact scanDecimal_none fun c hc => ⟨(hstart c hc).digit, (hstart c hc).point⟩

theorem skipNChars_of_apart (hb : ∀ c ∈ b.head?, Apart c) : skipNChars b = b := by
  unfold skipNChars
  split
  · exact absurd rfl (hb '(' rfl).paren
  · rfl

theorem skipNChars_of_chars {n : List Char} (h : ∀ c ∈ n, isNChar c = true) :
    skipNChars ('(' :: (n ++ [')'] ++ b)) = b := by
  have hstops : Stops isNChar (')' :: b) := by
    rintro _ ⟨rfl⟩
    decide
  unfold skipNChars
  simp only [List.append_assoc, List.singleton_append]
  rw [(span_of_stops h hstops).2]
  rfl

/-- **A number followed by white space is scanned to its end.** -/
theorem scan_of_subject (h : Subject t m) (hb : ∀ c ∈ b, isSpace c = true) :
    scanSubject (t ++ b) = some (m, b) := by
  unfold scanSubject
  cases h with
  | @decimal u x i f e significand exponent =>
    -- there is no `x` for the hexadecimal scanner
    have hhex : scanHexadecimal (u ++ x ++ b) = none := by
      refine scanHexadecimal_none fun c hc => ?_
      rcases List.mem_append.mp hc with hc | hc
      · exact decimal_chars significand exponent c hc
      · exact (apart_of_space (hb c hc)).hexMark
    have hsig : scanSignificand Char.isDigit (u ++ (x ++ b)) = some (i, f, x ++ b) := by
      refine scan_significand significand rfl fun c hc => ?_
      rcases exponent_head exponent hb c hc with hmark | hapart
      · exact decimal_mark hmark
      · exact ⟨hapart.digit, hapart.point⟩
    have hexp : scanExponent isE (x ++ b) = (e, b) :=
      scan_exponent exponent fun c hc =>
        ⟨(apart_head hb c hc).digit, (apart_head hb c hc).decimalMark⟩
    rw [hhex, Option.none_or, scanDecimal, List.append_assoc, hsig]
    simp only [Option.map_some, hexp, Option.some_or]
  | @hexadecimal c u x i f e mark significand exponent =>
    have hsig : scanSignificand isHexDigit (u ++ (x ++ b)) = some (i, f, x ++ b) := by
      refine scan_significand significand rfl fun c hc => ?_
      rcases exponent_head exponent hb c hc with hmark | hapart
      · exact binary_mark hmark
      · exact ⟨hapart.hexDigit, hapart.point⟩
    have hexp : scanExponent isP (x ++ b) = (e, b) :=
      scan_exponent exponent fun c hc =>
        ⟨(apart_head hb c hc).digit, (apart_head hb c hc).binaryMark⟩
    rw [List.cons_append, List.cons_append, List.append_assoc, scanHexadecimal, if_pos mark, hsig]
    simp only [Option.map_some, hexp, Option.some_or]
  | inf word =>
    rw [(scan_none_of_letter (word_head word) (by decide)).1,
      (scan_none_of_letter (word_head word) (by decide)).2]
    have hnone : scanWord ['i', 'n', 'i', 't', 'y'] b = none :=
      scan_word_none fun c hc => (apart_head hb c hc).letter
    simp [scanInfinity, scan_word word, hnone]
  | @infinity t u word rest =>
    rw [List.append_assoc, (scan_none_of_letter (word_head word) (by decide)).1,
      (scan_none_of_letter (word_head word) (by decide)).2]
    simp [scanInfinity, scan_word word, scan_word rest]
  | nan word =>
    have hinf : scanInfinity (t ++ b) = none := by
      rw [scanInfinity, scan_word_none fun c hc => by rw [word_head word c hc]; decide,
        Option.map_none]
    rw [(scan_none_of_letter (word_head word) (by decide)).1,
      (scan_none_of_letter (word_head word) (by decide)).2, hinf]
    simp [scanNan, scan_word word, skipNChars_of_apart (apart_head hb)]
  | @nanChars t n word chars =>
    have hinf : scanInfinity (t ++ ('(' :: (n ++ [')']) ++ b)) = none := by
      rw [scanInfinity, scan_word_none fun c hc => by rw [word_head word c hc]; decide,
        Option.map_none]
    rw [List.append_assoc, (scan_none_of_letter (word_head word) (by decide)).1,
      (scan_none_of_letter (word_head word) (by decide)).2, hinf]
    simp only [Option.none_or, scanNan, scan_word word, Option.map_some, List.cons_append,
      skipNChars_of_chars chars]

/-- A number begins with a digit, a point or a letter. -/
theorem subject_head (h : Subject t m) : ∃ c r, t = c :: r ∧ Opening c := by
  have hpoint : Opening '.' := ⟨by decide, by decide⟩
  cases h with
  | @decimal u x i f e significand exponent =>
    cases significand with
    | whole digits ne =>
      obtain ⟨c, i, rfl⟩ := List.exists_cons_of_ne_nil ne
      exact ⟨c, _, rfl, opening_of_digit (digits c List.mem_cons_self)⟩
    | point digits =>
      cases i with
      | nil => exact ⟨'.', _, rfl, hpoint⟩
      | cons c i => exact ⟨c, _, rfl, opening_of_digit (digits c List.mem_cons_self)⟩
  | hexadecimal => exact ⟨'0', _, rfl, by decide, by decide⟩
  | inf word | nan word | infinity word | nanChars word =>
    obtain ⟨c, t, rfl, hc⟩ := word_cons word
    exact ⟨c, _, rfl, (wordStart_of_toLower (by rw [hc]; decide)).toOpening⟩

theorem Denotes.ne_nil (h : Denotes s negative m) : s ≠ [] := by
  obtain @⟨a, sgn, t, b, _, _, before, sign, subject, after⟩ := h
  obtain ⟨c, t, rfl, -⟩ := subject_head subject
  simp

theorem scan_of_denotes (h : Denotes s negative m) :
    ∃ u r, scanSign (s.dropWhile isSpace) = (negative, u) ∧ scanSubject u = some (m, r) ∧
      ∀ c ∈ r, isSpace c = true := by
  obtain @⟨a, sgn, t, b, _, _, before, sign, subject, after⟩ := h
  obtain ⟨c, t, rfl, hopen⟩ := subject_head subject
  have hspace : Stops isSpace (sgn ++ (c :: t ++ b)) := by
    cases sign with
    | none =>
      rintro _ ⟨rfl⟩
      exact hopen.space
    | plus | minus =>
      rintro _ ⟨rfl⟩
      decide
  have hsign : scanSign (sgn ++ (c :: t ++ b)) = (negative, c :: t ++ b) := by
    refine scan_sign sign ?_
    rintro _ ⟨rfl⟩
    exact hopen.sign
  refine ⟨c :: t ++ b, b, ?_, scan_of_subject subject after, after⟩
  rw [(span_of_stops before hspace).2, hsign]

/-- **What is a number up to white space is scanned to its end**, with the value that the grammar
gives it. -/
theorem strtod_of_denotes (h : Denotes s negative m) :
    ∃ r, strtod s = (m.round negative, r) ∧ ∀ c ∈ r, isSpace c = true := by
  obtain ⟨u, r, hsign, hscan, hrest⟩ := scan_of_denotes h
  refine ⟨r, ?_, hrest⟩
  unfold strtod
  simp only [hsign, hscan]

/-- **A text denotes one number at most**: the scanner finds it. -/
theorem Denotes.unique {negative' : Bool} {m' : Magnitude} (h : Denotes s negative m)
    (h' : Denotes s negative' m') : negative' = negative ∧ m' = m := by
  obtain ⟨u, r, hsign, hscan, -⟩ := scan_of_denotes h
  obtain ⟨u', r', hsign', hscan', -⟩ := scan_of_denotes h'
  obtain ⟨rfl, rfl⟩ := Prod.mk.inj (hsign'.symm.trans hsign)
  rw [hscan] at hscan'
  obtain ⟨rfl, -⟩ := Prod.mk.inj (Option.some.inj hscan')
  exact ⟨rfl, rfl⟩

/-! ### Values -/

/-- Without its sign, a number is not negative. -/
def Magnitude.Nonneg : Magnitude → Prop
  | .finite q => 0 ≤ q
  | .infinite => True
  | .nan => True

theorem Subject.nonneg (h : Subject t m) : m.Nonneg := by
  cases h with
  | decimal => exact mul_nonneg (Nat.cast_nonneg _) (zpow_nonneg (by norm_num) _)
  | hexadecimal => exact mul_nonneg (Nat.cast_nonneg _) (zpow_nonneg (by norm_num) _)
  | inf | infinity | nan | nanChars => trivial

theorem Denotes.nonneg (h : Denotes s negative m) : m.Nonneg := by
  cases h with
  | intro before sign subject after => exact subject.nonneg

/-- **The numbers without a point and a decimal exponent**: the integers in decimal digits, and the
numbers that are not decimal. -/
theorem Denotes.unmarked_cases (h : Denotes s negative m)
    (hmark : ∀ c ∈ s, c ≠ '.' ∧ isE c = false) :
    (∃ n : ℕ, m = .finite n) ∨ (∃ i f e, m = .finite (hexValue i f e)) ∨ m = .infinite ∨
      m = .nan := by
  obtain @⟨a, sgn, t, b, _, _, before, sign, subject, after⟩ := h
  have hchars : ∀ c ∈ t, c ≠ '.' ∧ isE c = false := fun c hc => hmark c (by simp [hc])
  cases subject with
  | @decimal u x i f e significand exponent =>
    cases significand with
    | point => exact absurd rfl (hchars '.' (by simp)).1
    | whole =>
      cases exponent with
      | present mark =>
        rw [(hchars _ (by simp)).2] at mark
        cases mark
      | absent => exact .inl ⟨digitsValue 10 u, by simp [decimalValue]⟩
  | hexadecimal => exact .inr (.inl ⟨_, _, _, rfl⟩)
  | inf | infinity => exact .inr (.inr (.inl rfl))
  | nan | nanChars => exact .inr (.inr (.inr rfl))

end Strtod
