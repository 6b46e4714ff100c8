import Amio.Lib.Labelled
import Amio.Lib.Outcome
import Amio.Lib.Strtod

/-!
# Lists of numbers and ranges

Texts such as `0-3,8,10-11`: numbers and ranges of numbers, separated by commas. The first sections
have what a C++ program reads them with, `std::getline` with a separator and `std::stoi`; the last
one has the format, and that a text in it is taken apart into the segments that it was written from
(`pieces_write`, `stoi_repr`).

Strings are lists of characters.
-/

namespace RangeText

/-! ### `std::getline` -/

/-- The pieces that `std::getline(ss, token, sep)` delivers before it fails. What comes behind the
last separator is a piece only if it is not empty. -/
def pieces (sep : Char) (s : List Char) : List (List Char) :=
  if (s.splitOn sep).getLast? = some [] then (s.splitOn sep).dropLast else s.splitOn sep

/-- Joined pieces are delivered as they were, when none has the separator in it and none is
empty. -/
theorem pieces_intercalate {sep : Char} {ps : List (List Char)} (hsep : ∀ p ∈ ps, sep ∉ p)
    (hne : ∀ p ∈ ps, p ≠ []) : pieces sep ([sep].intercalate ps) = ps := by
  by_cases hnil : ps = []
  · subst hnil
    rfl
  · have hlast : ps.getLast? ≠ some [] := fun h => hne [] (List.mem_of_getLast? h) rfl
    rw [pieces, List.splitOn_intercalate sep hsep hnil, if_neg hlast]

/-! ### `std::stoi` -/

inductive StoiError
  | invalidArgument
  | outOfRange
  deriving DecidableEq

/-- `std::stoi`: white space, a sign and the digits that follow, whatever comes behind them. -/
def stoi (s : List Char) : Outcome StoiError Int :=
  let (negative, u) := Strtod.scanSign (s.dropWhile Strtod.isSpace)
  -- what follows the digits is not looked at
  let digits := u.takeWhile Char.isDigit
  let n : Int := Nat.ofDigitChars 10 digits 0
  let z := if negative then -n else n
  if digits = [] then .threw .invalidArgument
  else if -2 ^ 31 ≤ z ∧ z < 2 ^ 31 then .done z
  else .threw .outOfRange

/-- **A numeral is read as the number that it was written for.** -/
theorem stoi_repr {n : Nat} (h : n < 2 ^ 31) : stoi (Nat.repr n).toList = .done n := by
  obtain ⟨c, ds, hcons⟩ := List.exists_cons_of_ne_nil (Labelled.repr_ne_nil n)
  have hdigit : ∀ d ∈ c :: ds, d.isDigit = true :=
    fun d hd => Labelled.isDigit_of_mem_repr (n := n) (hcons ▸ hd)
  have hc : c.isDigit = true := hdigit c List.mem_cons_self
  -- a digit is no blank and no sign
  have hspace : Strtod.isSpace c = false := by
    by_contra hspace
    simp only [Strtod.isSpace, List.contains_eq_mem, Bool.not_eq_false, decide_eq_true_eq,
      List.mem_cons, List.not_mem_nil, or_false] at hspace
    rcases hspace with rfl | rfl | rfl | rfl | rfl | rfl <;> exact absurd hc (by decide)
  have hsign : Strtod.scanSign (c :: ds) = (false, c :: ds) := by
    unfold Strtod.scanSign
    split
    · next heq => exact absurd ((List.cons.inj heq).1 ▸ hc) (by decide)
    · next heq => exact absurd ((List.cons.inj heq).1 ▸ hc) (by decide)
    · rfl
  -- all of the text are digits, which read back as `n`
  have hvalue : Nat.ofDigitChars 10 (c :: ds) 0 = n := by
    rw [← hcons, Nat.toList_repr, Nat.ofDigitChars_ten_toDigits]
  have hall : (c :: ds).takeWhile Char.isDigit = c :: ds := List.takeWhile_eq_self_iff.mpr hdigit
  rw [hcons, stoi, List.dropWhile_cons_of_neg (by simp [hspace]), hsign]
  simp only [hall, hvalue, List.cons_ne_nil, if_false, Bool.false_eq_true]
  rw [if_pos (by omega)]

/-! ### The format -/

inductive Segment
  | number (n : Nat)
  | range (first last : Nat)
  deriving DecidableEq

namespace Segment

def write : Segment → List Char
  | .number n => (Nat.repr n).toList
  | .range first last => (Nat.repr first).toList ++ '-' :: (Nat.repr last).toList

/-- The numbers of the segment, in increasing order. -/
def members : Segment → List Nat
  | .number n => [n]
  | .range first last => (List.range (last + 1 - first)).map (first + ·)

/-- All numbers that the segment is written with are below `bound`. -/
def Below (bound : Nat) : Segment → Prop
  | .number n => n < bound
  | .range first last => first < bound ∧ last < bound

theorem write_ne_nil (segment : Segment) : segment.write ≠ [] := by
  cases segment with
  | number n => exact Labelled.repr_ne_nil n
  | range first last => simp [write]

/-- The characters that a segment is written with. -/
theorem of_mem_write {segment : Segment} {c : Char} (h : c ∈ segment.write) :
    c.isDigit = true ∨ c = '-' := by
  cases segment with
  | number n => exact .inl (Labelled.isDigit_of_mem_repr h)
  | range first last =>
    rcases List.mem_append.mp h with h | h
    · exact .inl (Labelled.isDigit_of_mem_repr h)
    · rcases List.mem_cons.mp h with h | h
      · exact .inr h
      · exact .inl (Labelled.isDigit_of_mem_repr h)

theorem comma_not_mem_write (segment : Segment) : ',' ∉ segment.write := by
  intro h
  rcases of_mem_write h with h | h <;> exact absurd h (by decide)

end Segment

/-- The text of a list of segments. -/
def write (segments : List Segment) : List Char := [','].intercalate (segments.map Segment.write)

/-- **A written list comes apart into the texts of its segments.** -/
theorem pieces_write (segments : List Segment) :
    pieces ',' (write segments) = segments.map Segment.write := by
  refine pieces_intercalate (fun p hp => ?_) fun p hp => ?_
  · obtain ⟨segment, -, rfl⟩ := List.mem_map.mp hp
    exact segment.comma_not_mem_write
  · obtain ⟨segment, -, rfl⟩ := List.mem_map.mp hp
    exact segment.write_ne_nil

example : pieces ',' "0-3,8".toList = ["0-3".toList, "8".toList] := by decide

/-- The characters that a list is written with. -/
theorem of_mem_write {segments : List Segment} {c : Char} (h : c ∈ write segments) :
    c.isDigit = true ∨ c = '-' ∨ c = ',' := by
  unfold write at h
  induction segments with
  | nil => cases h
  | cons segment segments ih =>
    cases segments with
    | nil =>
      rw [List.map_singleton, List.intercalate_singleton] at h
      exact (Segment.of_mem_write h).imp_right .inl
    | cons next segments =>
      rw [List.map_cons, List.map_cons, List.intercalate_cons_cons] at h
      rcases List.mem_append.mp h with h | h
      · rcases List.mem_append.mp h with h | h
        · exact (Segment.of_mem_write h).imp_right .inl
        · exact .inr (.inr (List.mem_singleton.mp h))
      · exact ih h

/-- A number is written without a dash. -/
theorem dash_not_mem_repr (n : Nat) : '-' ∉ (Nat.repr n).toList :=
  fun h => absurd (Labelled.isDigit_of_mem_repr h) (by decide)

end RangeText
