import Mathlib.Algebra.Order.Field.Power
import Mathlib.Data.Int.Log
import Mathlib.Data.Rat.Floor
import Mathlib.Tactic.Linarith
import Mathlib.Tactic.NormNum
import Mathlib.Tactic.Positivity
import Mathlib.Tactic.Ring

/-!
# Rounding to binary64

The binary64 number nearest to a non-negative rational, ties to even. A number of the format is an
integral multiple of a power of two: `ulpExponent q` is the exponent in force at `q`, never below
the one of the subnormal numbers, and `nearest q` rounds the quotient to an integer. The result
overflows when it reaches `2 ^ 1024`. The sign is a matter of its own, since the rounding is
symmetric.

* `nearest_lt_two_pow` and `nearest_le_two_pow` say which rationals round below, or to at most, a
  given power of two: the bound moves by half a unit in the last place below the power, and by half
  a unit above it.
* `nearest_natCast`: an integer rounds to an integer.
-/

/-- A binary64 datum. The two zeros are one value, and so are the NaNs. -/
inductive Double
  | finite (value : ℚ)
  | infinity (negative : Bool)
  | nan
  deriving DecidableEq

/-- The value is an integer of the signed type with `k` bits besides the sign. -/
def Double.Fits (k : ℕ) : Double → Prop
  | .finite v => ∃ n : ℤ, v = n ∧ -2 ^ k ≤ n ∧ n < 2 ^ k
  | .infinity _ => False
  | .nan => False

namespace Binary64

/-- The nearest integer, ties to even. -/
def roundEven (x : ℚ) : ℤ :=
  if Int.fract x < 1 / 2 then ⌊x⌋
  else if 1 / 2 < Int.fract x then ⌊x⌋ + 1
  else if Even ⌊x⌋ then ⌊x⌋ else ⌊x⌋ + 1

/-- The exponent of the last place at `q`. -/
def ulpExponent (q : ℚ) : ℤ := max (Int.log 2 q - 52) (-1074)

/-- The number of the format nearest to `q`, before it is known whether it overflows. -/
def nearest (q : ℚ) : ℚ := roundEven (q / 2 ^ ulpExponent q) * 2 ^ ulpExponent q

/-- The rounded value, with its sign. -/
def round (negative : Bool) (q : ℚ) : Double :=
  if nearest q < 2 ^ 1024 then .finite (if negative then -nearest q else nearest q)
  else .infinity negative

/-! ### Rounding to an integer -/

variable {x q : ℚ}

@[simp] theorem roundEven_intCast (n : ℤ) : roundEven n = n := by
  simp [roundEven]

/-- A value rounds to at most `m` when it lies below the tie above `m`, or on it and `m` is even. -/
theorem roundEven_le_iff {m : ℤ} :
    roundEven x ≤ m ↔ x < m + 1 / 2 ∨ (x = m + 1 / 2 ∧ Even m) := by
  have hx := Int.floor_add_fract x
  have hnonneg := Int.fract_nonneg x
  have hlt := Int.fract_lt_one x
  unfold roundEven
  -- the floor is below `m`, `m` itself, or above
  rcases lt_trichotomy ⌊x⌋ m with hbelow | heq | habove
  · have hcast : (⌊x⌋ : ℚ) + 1 ≤ m := by exact_mod_cast hbelow
    refine iff_of_true ?_ (.inl (by linarith))
    split_ifs <;> omega
  · rw [heq] at hx ⊢
    split_ifs with hlow hhigh heven
    · exact iff_of_true le_rfl (.inl (by linarith))
    · refine iff_of_false (by omega) ?_
      rintro (h | ⟨h, -⟩) <;> linarith
    · have htie : Int.fract x = 1 / 2 := le_antisymm (not_lt.mp hhigh) (not_lt.mp hlow)
      exact iff_of_true le_rfl (.inr ⟨by linarith, heven⟩)
    · refine iff_of_false (by omega) ?_
      rintro (h | ⟨-, h⟩)
      · linarith
      · exact heven h
  · have hcast : (m : ℚ) + 1 ≤ ⌊x⌋ := by exact_mod_cast habove
    refine iff_of_false (by split_ifs <;> omega) ?_
    rintro (h | ⟨h, -⟩) <;> linarith

theorem roundEven_le_even {m : ℤ} (hm : Even m) : roundEven x ≤ m ↔ x ≤ m + 1 / 2 := by
  rw [roundEven_le_iff, le_iff_lt_or_eq]
  simp [hm]

theorem roundEven_lt_even {m : ℤ} (hm : Even m) : roundEven x < m ↔ x < m - 1 / 2 := by
  have hodd : ¬ Even (m - 1) := by simpa [Int.even_sub] using hm
  rw [← Int.le_sub_one_iff, roundEven_le_iff]
  simp only [hodd, and_false, or_false, Int.cast_sub, Int.cast_one]
  constructor <;> intro h <;> linarith

theorem roundEven_mono_int {m : ℤ} (h : x ≤ m) : roundEven x ≤ m :=
  roundEven_le_iff.mpr (.inl (by linarith))

theorem le_roundEven {m : ℤ} (h : m ≤ x) : m ≤ roundEven x := by
  by_contra hlt
  rw [not_le, ← Int.le_sub_one_iff, roundEven_le_iff] at hlt
  push_cast at hlt
  rcases hlt with hlt | ⟨heq, -⟩ <;> linarith

/-! ### The last place -/

/-- The leading place at `q`, or that of the least normal number. -/
def leading (q : ℚ) : ℤ := max (Int.log 2 q) (-1022)

theorem ulpExponent_eq (q : ℚ) : ulpExponent q = leading q - 52 := by
  unfold ulpExponent leading
  omega

theorem lt_two_pow_leading (q : ℚ) : q < 2 ^ (leading q + 1) := by
  have h := Int.lt_zpow_succ_log_self (b := 2) (by norm_num) q
  refine h.trans_le ?_
  exact zpow_le_zpow_right₀ (by norm_num) (by unfold leading; omega)

theorem two_pow_leading_le (hq : 0 < q) {k : ℤ} (hk : -1022 < k) (h : k ≤ leading q) :
    (2 : ℚ) ^ k ≤ q := by
  have hlog := Int.zpow_log_le_self (b := 2) (by norm_num) hq
  refine le_trans ?_ hlog
  exact zpow_le_zpow_right₀ (by norm_num) (by unfold leading at h; omega)

/-- Rounding is division by the last place, up to the multiplication by it. -/
theorem nearest_eq (q : ℚ) :
    nearest q = roundEven (q / 2 ^ (leading q - 52)) * 2 ^ (leading q - 52) := by
  rw [nearest, ulpExponent_eq]

theorem two_zpow_eq (k : ℤ) (n : ℕ) : (2 : ℚ) ^ k = 2 ^ n * 2 ^ (k - n) := by
  rw [← zpow_natCast, ← zpow_add₀ two_ne_zero, add_sub_cancel]

/-- The last place in force at `q`. -/
theorem ulp_pos (q : ℚ) : (0 : ℚ) < 2 ^ (leading q - 52) := zpow_pos two_pos _

/-- What is compared with a multiple of the last place is compared as a rounded quotient. -/
theorem nearest_le_iff {m : ℤ} :
    nearest q ≤ m * 2 ^ (leading q - 52) ↔ roundEven (q / 2 ^ (leading q - 52)) ≤ m := by
  rw [nearest_eq, mul_le_mul_iff_left₀ (ulp_pos q)]
  exact Int.cast_le

theorem nearest_lt_iff {m : ℤ} :
    nearest q < m * 2 ^ (leading q - 52) ↔ roundEven (q / 2 ^ (leading q - 52)) < m := by
  rw [nearest_eq, mul_lt_mul_iff_left₀ (ulp_pos q)]
  exact Int.cast_lt

/-- Rounding stays within the binade, its upper end included. -/
theorem nearest_le_leading (q : ℚ) : nearest q ≤ 2 ^ (leading q + 1) := by
  have hend : (2 : ℚ) ^ (leading q + 1) = (2 ^ 53 : ℤ) * 2 ^ (leading q - 52) := by
    rw [two_zpow_eq _ 53]
    push_cast
    ring_nf
  rw [hend, nearest_le_iff]
  refine roundEven_mono_int ?_
  rw [div_le_iff₀ (ulp_pos q), ← hend]
  exact (lt_two_pow_leading q).le

theorem two_pow_le_nearest (hq : 0 < q) {k : ℤ} (hk : -1022 < k) (h : k ≤ leading q) :
    (2 : ℚ) ^ k ≤ nearest q := by
  have hstart : (2 : ℚ) ^ leading q = (2 ^ 52 : ℤ) * 2 ^ (leading q - 52) := by
    rw [two_zpow_eq _ 52]
    push_cast
    rfl
  calc (2 : ℚ) ^ k ≤ 2 ^ leading q := zpow_le_zpow_right₀ (by norm_num) h
    _ ≤ nearest q := by
      rw [hstart, ← not_lt, nearest_lt_iff, not_lt]
      refine le_roundEven ?_
      rw [le_div_iff₀ (ulp_pos q), ← hstart]
      exact two_pow_leading_le hq (by omega) le_rfl

theorem nearest_nonneg (hq : 0 ≤ q) : 0 ≤ nearest q := by
  rw [nearest_eq]
  refine mul_nonneg ?_ (ulp_pos q).le
  exact_mod_cast le_roundEven (m := 0) (by simpa using div_nonneg hq (ulp_pos q).le)

/-! ### Which values round below a power of two -/

theorem nearest_zero : nearest 0 = 0 := by
  have hzero : roundEven 0 = 0 := by simpa using roundEven_intCast 0
  rw [nearest_eq, zero_div, hzero, Int.cast_zero, zero_mul]

/-- **A value rounds below `2 ^ k`** when it lies below `2 ^ k` by more than half of the last place
there. -/
theorem nearest_lt_two_pow {k : ℤ} (hk : -1021 ≤ k) (hq : 0 ≤ q) :
    nearest q < 2 ^ k ↔ q < 2 ^ k - 2 ^ (k - 54) := by
  have hpos : (0 : ℚ) < 2 ^ (k - 54) := zpow_pos two_pos _
  have hpow := two_zpow_eq k 54
  rcases hq.eq_or_lt with rfl | hq
  · rw [nearest_zero]
    refine iff_of_true (zpow_pos two_pos _) ?_
    push_cast at hpow
    linarith
  -- by the binade of `q`: below the last one under `2 ^ k`, that one, or above
  rcases lt_trichotomy (leading q) (k - 1) with hbelow | heq | habove
  · have hhalf : (2 : ℚ) ^ (leading q + 1) ≤ 2 ^ (k - 1) :=
      zpow_le_zpow_right₀ (by norm_num) (by omega)
    have hdouble := two_zpow_eq k 1
    push_cast at hpow hdouble
    have hq' := lt_two_pow_leading q
    have hn := nearest_le_leading q
    refine iff_of_true ?_ ?_ <;> linarith
  · have hhalf : (2 : ℚ) ^ (leading q - 52) = 2 * 2 ^ (k - 54) := by
      rw [two_zpow_eq _ 1, heq]
      ring_nf
    have hend : (2 : ℚ) ^ k = (2 ^ 53 : ℤ) * 2 ^ (leading q - 52) := by
      rw [hhalf, hpow]
      push_cast
      ring
    rw [hend, nearest_lt_iff, roundEven_lt_even (by decide), div_lt_iff₀ (ulp_pos q), hhalf]
    push_cast
    constructor <;> intro h <;> linarith
  · have hstart : (2 : ℚ) ^ k ≤ q := two_pow_leading_le hq (by omega) (by omega)
    have hn : (2 : ℚ) ^ k ≤ nearest q := two_pow_le_nearest hq (by omega) (by omega)
    exact iff_of_false (by linarith) (by linarith)

/-- **A value rounds to at most `2 ^ k`** when it exceeds `2 ^ k` by at most half of the last place
there. -/
theorem nearest_le_two_pow {k : ℤ} (hk : -1022 ≤ k) (hq : 0 ≤ q) :
    nearest q ≤ 2 ^ k ↔ q ≤ 2 ^ k + 2 ^ (k - 53) := by
  have hpos : (0 : ℚ) < 2 ^ (k - 53) := zpow_pos two_pos _
  have hpow := two_zpow_eq k 53
  rcases hq.eq_or_lt with rfl | hq
  · rw [nearest_zero]
    exact iff_of_true (zpow_pos two_pos _).le (by positivity)
  rcases lt_trichotomy (leading q) k with hbelow | heq | habove
  -- below the power's binade: both sides hold
  · have hend : (2 : ℚ) ^ (leading q + 1) ≤ 2 ^ k :=
      zpow_le_zpow_right₀ (by norm_num) (by omega)
    have hq' := lt_two_pow_leading q
    have hn := nearest_le_leading q
    refine iff_of_true ?_ ?_ <;> linarith
  -- in its binade, where half a unit decides, and the tie goes to the even power
  · have hhalf : (2 : ℚ) ^ (leading q - 52) = 2 * 2 ^ (k - 53) := by
      rw [two_zpow_eq _ 1, heq]
      ring_nf
    have hstart : (2 : ℚ) ^ k = (2 ^ 52 : ℤ) * 2 ^ (leading q - 52) := by
      rw [hhalf, hpow]
      push_cast
      ring
    rw [hstart, nearest_le_iff, roundEven_le_even (by decide), div_le_iff₀ (ulp_pos q), hhalf]
    push_cast
    constructor <;> intro h <;> linarith
  -- above it: neither holds
  · have hdouble := two_zpow_eq (k + 1) 1
    have hstart : (2 : ℚ) ^ (k + 1) ≤ q := two_pow_leading_le hq (by omega) (by omega)
    have hn : (2 : ℚ) ^ (k + 1) ≤ nearest q := two_pow_le_nearest hq (by omega) (by omega)
    rw [Nat.cast_one, pow_one, add_sub_cancel_right] at hdouble
    push_cast at hpow
    exact iff_of_false (by linarith) (by linarith)

/-! ### Integers -/

/-- **An integer rounds to an integer.** -/
theorem nearest_natCast (n : ℕ) : ∃ m : ℤ, nearest n = m := by
  rcases le_total (leading (n : ℚ)) 52 with hsmall | hlarge
  · -- the last place divides one, and the integer is a multiple of it
    obtain ⟨j, hj⟩ := Int.eq_ofNat_of_zero_le (sub_nonneg.mpr hsmall)
    have hulp : (2 : ℚ) ^ (leading (n : ℚ) - 52) = (2 ^ j)⁻¹ := by
      rw [← zpow_natCast, ← hj, ← zpow_neg]
      ring_nf
    refine ⟨n, ?_⟩
    rw [nearest_eq, hulp, div_inv_eq_mul]
    have hcast : (n : ℚ) * 2 ^ j = ((n * 2 ^ j : ℤ) : ℚ) := by push_cast; rfl
    rw [hcast, roundEven_intCast]
    push_cast
    exact mul_inv_cancel_right₀ (by positivity) _
  · obtain ⟨j, hj⟩ := Int.eq_ofNat_of_zero_le (sub_nonneg.mpr hlarge)
    refine ⟨roundEven ((n : ℚ) / 2 ^ (leading (n : ℚ) - 52)) * 2 ^ j, ?_⟩
    rw [nearest_eq, hj]
    push_cast
    rfl

/-! ### Conversions to an integer type -/

/-- **What fits after rounding**: the rounded value is integral, and the value lies below `2 ^ k` by
more than half of the last place there, or beyond `-2 ^ k` by at most half of one. -/
theorem round_fits_iff {k : ℕ} (hk : k < 1024) (hq : 0 ≤ q) (negative : Bool) :
    (round negative q).Fits k ↔ (∃ m : ℤ, nearest q = m) ∧
      if negative then q ≤ 2 ^ k + 2 ^ ((k : ℤ) - 53) else q < 2 ^ k - 2 ^ ((k : ℤ) - 54) := by
  have hlt := nearest_lt_two_pow (k := k) (by omega) hq
  have hle := nearest_le_two_pow (k := k) (by omega) hq
  rw [zpow_natCast] at hlt hle
  have hsmall : (2 : ℚ) ^ k < 2 ^ 1024 := pow_lt_pow_right₀ (by norm_num) hk
  have hnonneg := nearest_nonneg hq
  have hpow : (0 : ℚ) < 2 ^ k := by positivity
  unfold round
  split
  · cases negative with
    | false =>
      simp only [Bool.false_eq_true, if_false, ← hlt, Double.Fits]
      constructor
      · rintro ⟨n, hn, -, hhi⟩
        exact ⟨⟨n, hn⟩, by rw [hn]; exact_mod_cast hhi⟩
      · rintro ⟨⟨n, hn⟩, hhi⟩
        rw [hn] at hhi hnonneg
        refine ⟨n, hn, ?_, by exact_mod_cast hhi⟩
        have hlo : (-2 ^ k : ℚ) ≤ n := by linarith
        exact_mod_cast hlo
    | true =>
      simp only [if_true, ← hle, Double.Fits]
      constructor
      · rintro ⟨n, hn, hlo, -⟩
        have hlo' : (-2 ^ k : ℚ) ≤ n := by exact_mod_cast hlo
        exact ⟨⟨-n, by push_cast; linarith⟩, by linarith⟩
      · rintro ⟨⟨n, hn⟩, hlo⟩
        rw [hn] at hlo hnonneg
        refine ⟨-n, by rw [hn]; push_cast; rfl, ?_, ?_⟩
        · have hlo' : (-2 ^ k : ℚ) ≤ -n := by linarith
          exact_mod_cast hlo'
        · have hhi : (-n : ℚ) < 2 ^ k := by linarith
          exact_mod_cast hhi
  · next hover =>
    -- what overflows is out of range anyway
    refine iff_of_false id ?_
    rintro ⟨-, hin⟩
    split at hin
    · exact hover ((hle.mpr hin).trans_lt hsmall)
    · exact hover ((hlt.mpr hin).trans hsmall)

/-- A multiple of a power of two that the format has. -/
theorem nearest_mul_zpow {k : ℕ} {e : ℤ} (hk : k ≤ 2 ^ 53) (he : -1074 ≤ e) :
    nearest (k * 2 ^ e) = k * 2 ^ e := by
  -- a quotient by the last place that is an integer is not changed
  have hexact : ∀ n : ℤ, (k : ℚ) * 2 ^ e / 2 ^ ulpExponent (k * 2 ^ e) = n →
      nearest (k * 2 ^ e) = k * 2 ^ e := by
    intro n hn
    rw [nearest, hn, roundEven_intCast, ← hn, div_mul_cancel₀]
    exact (zpow_pos two_pos _).ne'
  rcases Nat.eq_zero_or_pos k with rfl | hpos
  · simp [nearest_zero]
  have hq : (0 : ℚ) < k * 2 ^ e := mul_pos (Nat.cast_pos.mpr hpos) (zpow_pos two_pos _)
  rcases Nat.lt_or_eq_of_le hk with hlt | rfl
  -- the last place is at most `2 ^ e`
  · have hlog : Int.log 2 ((k : ℚ) * 2 ^ e) < e + 53 := by
      refine (Int.lt_zpow_iff_log_lt (b := 2) one_lt_two hq).mp ?_
      have hcast : (k : ℚ) < 2 ^ 53 := by exact_mod_cast hlt
      have hsplit : ((2 : ℕ) : ℚ) ^ (e + 53) = 2 ^ (53 : ℕ) * 2 ^ e := by
        rw [Nat.cast_ofNat, add_comm, zpow_add₀ two_ne_zero]
        norm_num
      rw [hsplit]
      exact mul_lt_mul_of_pos_right hcast (zpow_pos two_pos _)
    have hulp : ulpExponent ((k : ℚ) * 2 ^ e) ≤ e := by
      rw [ulpExponent]
      omega
    obtain ⟨n, hn⟩ := Int.eq_ofNat_of_zero_le (sub_nonneg.mpr hulp)
    refine hexact (k * 2 ^ n) ?_
    rw [mul_div_assoc, ← zpow_sub₀ two_ne_zero, hn]
    push_cast
    rw [zpow_natCast]
  -- the number is a power of two
  · have hvalue : (((2 ^ 53 : ℕ) : ℚ)) * 2 ^ e = (2 : ℚ) ^ (e + 53) := by
      rw [add_comm, zpow_add₀ two_ne_zero]
      norm_num
    have hlog : Int.log 2 ((2 : ℚ) ^ (e + 53)) = e + 53 := by
      have := Int.log_zpow (R := ℚ) (b := 2) one_lt_two (e + 53)
      simpa using this
    refine hexact (2 ^ 52) ?_
    have hulp : ulpExponent ((2 : ℚ) ^ (e + 53)) = e + 1 := by
      rw [ulpExponent, hlog]
      omega
    rw [hvalue, hulp, ← zpow_sub₀ two_ne_zero]
    have hsub : e + 53 - (e + 1) = ((52 : ℕ) : ℤ) := by push_cast; ring
    rw [hsub, zpow_natCast]
    push_cast
    rfl

/-- **Rounding twice** is rounding once. -/
theorem nearest_nearest (hq : 0 ≤ q) : nearest (nearest q) = nearest q := by
  have hnonneg : 0 ≤ roundEven (q / 2 ^ ulpExponent q) :=
    le_roundEven (by simpa using div_nonneg hq (zpow_pos two_pos _).le)
  -- the rounded significand has at most 53 bits, or is the next power
  have hle : roundEven (q / 2 ^ ulpExponent q) ≤ 2 ^ 53 := by
    refine roundEven_mono_int ?_
    rw [div_le_iff₀ (zpow_pos two_pos _)]
    have hlt := lt_two_pow_leading q
    have hsplit : (2 : ℚ) ^ (leading q + 1) = 2 ^ (53 : ℕ) * 2 ^ ulpExponent q := by
      rw [ulpExponent_eq, ← zpow_natCast, ← zpow_add₀ two_ne_zero]
      congr 1
      push_cast
      ring
    rw [hsplit] at hlt
    push_cast
    exact hlt.le
  obtain ⟨k, hk⟩ := Int.eq_ofNat_of_zero_le hnonneg
  have hbound : k ≤ 2 ^ 53 := by
    rw [hk] at hle
    exact_mod_cast hle
  -- and such a number is a binary64 already
  have heq : nearest q = k * 2 ^ ulpExponent q := by
    rw [nearest, hk]
    rfl
  have hexp : -1074 ≤ ulpExponent q := le_max_right _ _
  rw [heq, nearest_mul_zpow hbound hexp]

/-! ### Conversion of an integer -/

/-- The double nearest to an integer. -/
def ofInt (n : ℤ) : Double := round (decide (n < 0)) |(n : ℚ)|

/-- A rounded value that is an integer is the double of that integer. -/
theorem ofInt_of_round {negative : Bool} {v : ℚ} {n : ℤ} (hq : 0 ≤ q)
    (h : round negative q = .finite v) (hv : v = n) : ofInt n = .finite v := by
  unfold round at h
  split at h
  · next hlt =>
    obtain rfl := Double.finite.inj h
    have hnonneg := nearest_nonneg hq
    -- the magnitude of the integer is the rounded magnitude
    have habs : |(n : ℚ)| = nearest q := by
      rw [← hv]
      cases negative with
      | false => exact abs_of_nonneg hnonneg
      | true => exact (abs_neg _).trans (abs_of_nonneg hnonneg)
    rw [ofInt, round, habs, nearest_nearest hq, if_pos hlt, hv, ← habs]
    congr 1
    by_cases hneg : n < 0
    · have hcast : (n : ℚ) < 0 := by exact_mod_cast hneg
      simp [hneg, abs_of_neg hcast]
    · have hcast : (0 : ℚ) ≤ n := by exact_mod_cast not_lt.mp hneg
      simp [hneg, abs_of_nonneg hcast]
  · cases h

end Binary64
