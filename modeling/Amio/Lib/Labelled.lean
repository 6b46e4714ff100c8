import Mathlib.Data.List.TakeWhile
import Mathlib.Logic.Function.Basic

/-!
# Texts made of labelled values

A composite name is often a flat text: a label, a value, the next label, the next value. Nothing
separates the parts, so whether the name still determines them depends on the alphabet. A `Format`
writes values with symbols of one class, and a label is a non-empty run of symbols of the other
class; then the boundaries can be found again (`render_injective`), whatever the labels and the
values are and however many there are. `decimal` is the format of signed decimal numerals.
-/

namespace Labelled

/-- How values of `α` are written with symbols of `χ`: injectively, never empty, and with symbols
of the class `isBody` only. -/
structure Format (χ α : Type*) where
  isBody : χ → Bool
  body : α → List χ
  body_isBody : ∀ a, ∀ c ∈ body a, isBody c = true
  body_ne_nil : ∀ a, body a ≠ []
  body_injective : Function.Injective body

variable {χ α : Type*} (F : Format χ α)

/-- A label: at least one symbol, and none that a value is written with. -/
def Format.IsLabel (label : List χ) : Prop := label ≠ [] ∧ ∀ c ∈ label, F.isBody c = false

/-- The text of a list of labelled values. -/
def Format.render : List (List χ × α) → List χ
  | [] => []
  | (label, a) :: segments => label ++ (F.body a ++ render segments)

@[simp] theorem Format.render_nil : F.render [] = [] := rfl

@[simp] theorem Format.render_cons (label : List χ) (a : α) (segments : List (List χ × α)) :
    F.render ((label, a) :: segments) = label ++ (F.body a ++ F.render segments) := rfl

/-- A run of symbols of one class, followed by something that does not go on with that class, can
be told from what follows. -/
theorem run_append_inj {p : χ → Bool} {u v : List χ} {rest rest' : List χ}
    (hu : ∀ c ∈ u, p c = true) (hv : ∀ c ∈ v, p c = true)
    (hrest : ∀ c ∈ rest.head?, p c = false) (hrest' : ∀ c ∈ rest'.head?, p c = false)
    (h : u ++ rest = v ++ rest') : u = v ∧ rest = rest' := by
  induction u generalizing v with
  | nil =>
    cases v with
    | nil => exact ⟨rfl, h⟩
    | cons c v =>
      -- `rest` would have to begin with a symbol of the run
      have hc : p c = false := hrest c (by rw [show rest = c :: (v ++ rest') from h]; rfl)
      simp [hv c (by simp)] at hc
  | cons c u ih =>
    cases v with
    | nil =>
      have hc : p c = false := hrest' c (by rw [← show c :: (u ++ rest) = rest' from h]; rfl)
      simp [hu c (by simp)] at hc
    | cons d v =>
      obtain ⟨rfl, htail⟩ := List.cons.inj h
      obtain ⟨rfl, hr⟩ := ih (fun x hx => hu x (by simp [hx])) (fun x hx => hv x (by simp [hx]))
        htail
      exact ⟨rfl, hr⟩

variable {F}

/-- What follows a value begins with a label, or ends the text. -/
theorem Format.head_render {segments : List (List χ × α)}
    (hl : ∀ s ∈ segments, F.IsLabel s.1) :
    ∀ c ∈ (F.render segments).head?, F.isBody c = false := by
  intro c hc
  cases segments with
  | nil => simp at hc
  | cons s segments =>
    obtain ⟨hne, hall⟩ := hl s (by simp)
    obtain ⟨d, label, hlabel⟩ := List.exists_cons_of_ne_nil hne
    simp only [Format.render, hlabel, List.cons_append, List.head?_cons, Option.mem_def,
      Option.some.injEq] at hc
    exact hc ▸ hall d (by simp [hlabel])

/-- What follows a label begins with a value. -/
theorem Format.head_body_append (a : α) (rest : List χ) :
    ∀ c ∈ (F.body a ++ rest).head?, F.isBody c = true := by
  intro c hc
  obtain ⟨d, body, hbody⟩ := List.exists_cons_of_ne_nil (F.body_ne_nil a)
  simp only [hbody, List.cons_append, List.head?_cons, Option.mem_def, Option.some.injEq] at hc
  exact hc ▸ F.body_isBody a d (by simp [hbody])

/-- One labelled value can be told from the rest of the text. -/
theorem Format.segment_inj {l l' : List χ} {a a' : α} {rest rest' : List χ}
    (hl : F.IsLabel l) (hl' : F.IsLabel l')
    (hrest : ∀ c ∈ rest.head?, F.isBody c = false) (hrest' : ∀ c ∈ rest'.head?, F.isBody c = false)
    (h : l ++ (F.body a ++ rest) = l' ++ (F.body a' ++ rest')) :
    l = l' ∧ a = a' ∧ rest = rest' := by
  -- first the label, a run of the other class; then the value
  obtain ⟨hlab, htail⟩ := run_append_inj (p := fun c => !F.isBody c)
    (fun c hc => by simp [hl.2 c hc]) (fun c hc => by simp [hl'.2 c hc])
    (fun c hc => by simp [F.head_body_append a rest c hc])
    (fun c hc => by simp [F.head_body_append a' rest' c hc]) h
  obtain ⟨hbody, hr⟩ := run_append_inj (F.body_isBody a) (F.body_isBody a') hrest hrest' htail
  exact ⟨hlab, F.body_injective hbody, hr⟩

/-- **The text determines its labelled values.** -/
theorem Format.render_injective {xs ys : List (List χ × α)}
    (hx : ∀ s ∈ xs, F.IsLabel s.1) (hy : ∀ s ∈ ys, F.IsLabel s.1)
    (h : F.render xs = F.render ys) : xs = ys := by
  induction xs generalizing ys with
  | nil =>
    cases ys with
    | nil => rfl
    | cons y ys => simp [Format.render, (hy y (by simp)).1] at h
  | cons x xs ih =>
    cases ys with
    | nil => simp [Format.render, (hx x (by simp)).1] at h
    | cons y ys =>
      have hxs : ∀ s ∈ xs, F.IsLabel s.1 := fun s hs => hx s (by simp [hs])
      have hys : ∀ s ∈ ys, F.IsLabel s.1 := fun s hs => hy s (by simp [hs])
      -- the first segments agree, and what follows them
      obtain ⟨hl, ha, hrest⟩ := Format.segment_inj (hx x (by simp)) (hy y (by simp))
        (Format.head_render hxs) (Format.head_render hys) h
      rw [ih hxs hys hrest]
      exact congrArg (· :: ys) (Prod.ext hl ha)

/-! ### Signed decimal numerals -/

/-- The symbols of a signed decimal numeral. -/
def isNumeral (c : Char) : Bool := c.isDigit || c == '-'

theorem isDigit_of_mem_repr {n : ℕ} {c : Char} (h : c ∈ (Nat.repr n).toList) :
    c.isDigit = true := by
  rw [Nat.toList_repr] at h
  exact Nat.isDigit_of_mem_toDigits (by decide) (by decide) h

theorem repr_injective : Function.Injective fun n : ℕ => (Nat.repr n).toList := by
  intro a b h
  simp only [Nat.toList_repr] at h
  simpa using congrArg (fun ds => Nat.ofDigitChars 10 ds 0) h

theorem repr_ne_nil (n : ℕ) : (Nat.repr n).toList ≠ [] := by
  rw [Nat.toList_repr]
  exact Nat.toDigits_ne_nil

/-- The numeral of an integer: the digits of a natural number, after a minus sign if negative. -/
theorem toList_toString_int (z : ℤ) :
    (toString z).toList = if 0 ≤ z then (Nat.repr z.toNat).toList
      else '-' :: (Nat.repr (-z).toNat).toList := by
  rw [Int.toString_eq_repr, Int.repr_eq_if]
  split <;> simp

theorem isNumeral_of_mem_toString {z : ℤ} {c : Char} (h : c ∈ (toString z).toList) :
    isNumeral c = true := by
  rw [toList_toString_int] at h
  unfold isNumeral
  split at h
  · simp [isDigit_of_mem_repr h]
  · rcases List.mem_cons.mp h with rfl | h
    · rfl
    · simp [isDigit_of_mem_repr h]

/-- A numeral without a sign does not begin with one. -/
theorem repr_ne_minus_cons {n : ℕ} {ds : List Char} : (Nat.repr n).toList ≠ '-' :: ds := by
  intro h
  have hd : '-'.isDigit = true := isDigit_of_mem_repr (n := n) (by rw [h]; simp)
  exact absurd hd (by decide)

theorem toString_int_injective : Function.Injective fun z : ℤ => (toString z).toList := by
  intro a b h
  simp only [toList_toString_int] at h
  by_cases ha : 0 ≤ a <;> by_cases hb : 0 ≤ b
  · rw [if_pos ha, if_pos hb] at h
    have := repr_injective h
    omega
  · rw [if_pos ha, if_neg hb] at h
    exact absurd h repr_ne_minus_cons
  · rw [if_neg ha, if_pos hb] at h
    exact absurd h.symm repr_ne_minus_cons
  · rw [if_neg ha, if_neg hb] at h
    have := repr_injective (List.cons.inj h).2
    omega

/-- Signed decimal numerals, as `std::to_string` writes them. -/
def decimal : Format Char ℤ where
  isBody := isNumeral
  body z := (toString z).toList
  body_isBody _ _ := isNumeral_of_mem_toString
  body_ne_nil z := by
    rw [toList_toString_int]
    split
    · exact repr_ne_nil _
    · exact List.cons_ne_nil _ _
  body_injective := toString_int_injective

@[simp] theorem decimal_body (z : ℤ) : decimal.body z = (toString z).toList := rfl

@[simp] theorem decimal_isBody (c : Char) : decimal.isBody c = isNumeral c := rfl

end Labelled
