import Amio.Boundary.WritePath

/-!
# Sizes and boxes in 64-bit arithmetic

Two checks at the boundary multiply what the caller passes before they look at it: `validate_bbox`
the extents and strides of a selection, and `write` the extents of a payload. This module says for
which arguments the machine's answer is the one over the integers (`validateBbox_exact_iff`,
`payload_exact_iff`): for all of them, unless a product leaves the 64 bits and comes back to a value
that passes.
-/

namespace Amio

/-! ### Boxes -/

/-- The extents are 64-bit values. -/
def Shape.IsMachine (shape : Shape) : Prop := ∀ d, IsInt64 (shape.extents d)

/-- One turn of the loop of `validate_bbox`. -/
def Bbox.passes (b : Bbox) (shape : Shape) (d : Fin maxRank) : Bool :=
  if b.strides d < 1 then false
  else if b.offsets d < 0 then false
  else
    let last := i64 (b.offsets d + i64 (i64 (b.extents d - 1) * b.strides d))
    !decide (b.extents d < 1 ∨ shape.extents d ≤ last)

/-- `validate_bbox`. -/
def validateBbox (bbox : Option Bbox) (shape : Shape) : AmioErr :=
  match bbox with
  | none => .ok
  | some b =>
    if b.rank ≠ shape.rank then .invalidInput
    else if (dims b.rank).all fun d => b.passes shape d then .ok
    else .invalidInput

/-- The box selects at least one index in every dimension, and only indices of the shape. -/
def Bbox.Inside (b : Bbox) (shape : Shape) : Prop :=
  b.rank = shape.rank ∧ ∀ d ∈ dims b.rank, 1 ≤ b.strides d ∧ 0 ≤ b.offsets d ∧ 1 ≤ b.extents d ∧
    ∀ k, 0 ≤ k → k < b.extents d →
      0 ≤ b.offsets d + k * b.strides d ∧ b.offsets d + k * b.strides d < shape.extents d

/-- The answer of `validate_bbox` is the right one. -/
def BoxExact (bbox : Option Bbox) (shape : Shape) : Prop :=
  (validateBbox bbox shape = .ok ↔ ∀ b ∈ bbox, b.Inside shape) ∧
    (validateBbox bbox shape ≠ .ok → validateBbox bbox shape = .invalidInput)

/-- The last index that the box selects in dimension `d`, over the integers. -/
def Bbox.last (b : Bbox) (d : Fin maxRank) : Int := b.offsets d + (b.extents d - 1) * b.strides d

/-- Some last index is beyond the 64 bits, and every last index is below the extent when it is
reduced to them. -/
def Bbox.Wraps (b : Bbox) (shape : Shape) : Prop :=
  b.rank = shape.rank ∧
    (∀ d ∈ dims b.rank, 1 ≤ b.strides d ∧ 0 ≤ b.offsets d ∧ 1 ≤ b.extents d ∧
      i64 (b.last d) < shape.extents d) ∧
    ∃ d ∈ dims b.rank, 2 ^ 63 ≤ b.last d

/-- The checks of the last element wrap around together. -/
theorem i64_last (b : Bbox) (d : Fin maxRank) :
    i64 (b.offsets d + i64 (i64 (b.extents d - 1) * b.strides d)) = i64 (b.last d) := by
  unfold i64 Bbox.last
  rw [Int.bmod_mul_bmod, Int.add_bmod_bmod]

/-- What the checks of one axis ask. -/
theorem Bbox.passes_iff {b : Bbox} {shape : Shape} {d : Fin maxRank} :
    b.passes shape d = true ↔
      1 ≤ b.strides d ∧ 0 ≤ b.offsets d ∧ 1 ≤ b.extents d ∧ i64 (b.last d) < shape.extents d := by
  unfold Bbox.passes
  rw [i64_last]
  split
  · next h => simp; omega
  · split
    · next h => simp; omega
    · simp; omega

theorem validateBbox_ok_iff {b : Bbox} {shape : Shape} :
    validateBbox (some b) shape = .ok ↔ b.rank = shape.rank ∧ ∀ d ∈ dims b.rank,
      1 ≤ b.strides d ∧ 0 ≤ b.offsets d ∧ 1 ≤ b.extents d ∧ i64 (b.last d) < shape.extents d := by
  simp only [validateBbox]
  split
  · next hrank => simp [hrank]
  · next hrank =>
    -- the loop passes when every axis does
    have hall : ((dims b.rank).all fun d => b.passes shape d) = true ↔ ∀ d ∈ dims b.rank,
        1 ≤ b.strides d ∧ 0 ≤ b.offsets d ∧ 1 ≤ b.extents d ∧
          i64 (b.last d) < shape.extents d := by
      rw [List.all_eq_true]
      exact forall₂_congr fun d _ => Bbox.passes_iff
    rw [← hall]
    split
    · next h => exact ⟨fun _ => ⟨not_not.mp hrank, h⟩, fun _ => rfl⟩
    · next h => exact ⟨fun hok => (by cases hok), fun hok => absurd hok.2 h⟩

/-- All selected indices are in range when the first and the last are. -/
theorem Bbox.inside_iff {b : Bbox} {shape : Shape} :
    b.Inside shape ↔ b.rank = shape.rank ∧ ∀ d ∈ dims b.rank,
      1 ≤ b.strides d ∧ 0 ≤ b.offsets d ∧ 1 ≤ b.extents d ∧ b.last d < shape.extents d := by
  refine and_congr_right fun _ => forall₂_congr fun d _ => ?_
  refine and_congr_right fun hstride => and_congr_right fun hoffset =>
    and_congr_right fun hext => ?_
  unfold Bbox.last
  constructor
  · intro h
    exact (h (b.extents d - 1) (by omega) (by omega)).2
  -- the last element is the farthest, for the stride is positive
  · intro hlast k hk hlt
    have hle : k * b.strides d ≤ (b.extents d - 1) * b.strides d :=
      mul_le_mul_of_nonneg_right (by omega) (by omega)
    have hnonneg : 0 ≤ k * b.strides d := mul_nonneg hk (by omega)
    omega

/-- The last element of an axis is not before the origin. -/
theorem last_nonneg {b : Bbox} {d : Fin maxRank} (hstride : 1 ≤ b.strides d)
    (hoffset : 0 ≤ b.offsets d) (hext : 1 ≤ b.extents d) : 0 ≤ b.last d := by
  have hnonneg : 0 ≤ (b.extents d - 1) * b.strides d := mul_nonneg (by omega) (by omega)
  unfold Bbox.last
  omega

/-- A box that is accepted is inside the shape unless its last index wraps around. -/
theorem inside_iff_not_wraps {b : Bbox} {shape : Shape} (hshape : shape.IsMachine)
    (hok : validateBbox (some b) shape = .ok) : b.Inside shape ↔ ¬ b.Wraps shape := by
  obtain ⟨hrank, hpasses⟩ := validateBbox_ok_iff.mp hok
  rw [Bbox.inside_iff]
  constructor
  · rintro ⟨-, hinside⟩ ⟨-, -, d, hd, hlarge⟩
    obtain ⟨-, -, -, hlast⟩ := hinside d hd
    have := (hshape d).2
    omega
  · refine fun hnot => ⟨hrank, fun d hd => ?_⟩
    obtain ⟨hstride, hoffset, hext, hlast⟩ := hpasses d hd
    -- what does not wrap around is below `2 ^ 63`, where the check is exact
    have hsmall : b.last d < 2 ^ 63 := by
      by_contra hlarge
      exact hnot ⟨hrank, hpasses, d, hd, by omega⟩
    have hnonneg := last_nonneg hstride hoffset hext
    rw [i64_of_isInt64 ⟨by omega, hsmall⟩] at hlast
    exact ⟨hstride, hoffset, hext, hlast⟩

/-- **Bounding boxes.** `validate_bbox` is right about every box of 64-bit entries but those whose
last index wraps around in some dimension and is then small enough in all of them. -/
theorem validateBbox_exact_iff (bbox : Option Bbox) (shape : Shape)
    (hshape : shape.IsMachine) : BoxExact bbox shape ↔ ∀ b ∈ bbox, ¬ b.Wraps shape := by
  cases bbox with
  | none => simp [BoxExact, validateBbox]
  | some b =>
    have herror : validateBbox (some b) shape ≠ .ok →
        validateBbox (some b) shape = .invalidInput := by
      simp only [validateBbox]
      split
      · exact fun _ => rfl
      · split
        · exact fun h => absurd rfl h
        · exact fun _ => rfl
    simp only [BoxExact, Option.mem_def, Option.some.injEq, forall_eq', validateBbox_ok_iff,
      Bbox.inside_iff]
    constructor
    -- a last element from `2 ^ 63` on passes the check and is not inside
    · rintro ⟨hiff, -⟩ ⟨hrank, hpasses, d, hd, hlarge⟩
      obtain ⟨-, hinside⟩ := hiff.mp ⟨hrank, hpasses⟩
      obtain ⟨-, -, -, hlast⟩ := hinside d hd
      have := (hshape d).2
      omega
    · refine fun hnot => ⟨⟨fun ⟨hrank, hpasses⟩ => ⟨hrank, fun d hd => ?_⟩,
        fun ⟨hrank, hinside⟩ => ⟨hrank, fun d hd => ?_⟩⟩, herror⟩
      -- below it the check is exact
      · obtain ⟨hstride, hoffset, hext, hlast⟩ := hpasses d hd
        have hsmall : b.last d < 2 ^ 63 := by
          by_contra hlarge
          exact hnot ⟨hrank, hpasses, d, hd, by omega⟩
        have hnonneg := last_nonneg hstride hoffset hext
        rw [i64_of_isInt64 ⟨by omega, hsmall⟩] at hlast
        exact ⟨hstride, hoffset, hext, hlast⟩
      · obtain ⟨hstride, hoffset, hext, hlast⟩ := hinside d hd
        have hnonneg := last_nonneg hstride hoffset hext
        have := (hshape d).2
        rw [i64_of_isInt64 ⟨by omega, by omega⟩]
        exact ⟨hstride, hoffset, hext, hlast⟩

/-- A row of ten elements. -/
def tenElements : Shape := ⟨1, fun _ => 10, fun _ => 0⟩

/-- The extents and the box fit into 64 bits. -/
theorem tenElements_isMachine : tenElements.IsMachine := fun _ => by
  show IsInt64 10
  decide

/-- Every third element, from the first to the last. -/
theorem validateBbox_exact_thirds :
    BoxExact (some ⟨1, fun _ => 0, fun _ => 4, fun _ => 3⟩) tenElements := by
  refine (validateBbox_exact_iff _ _ tenElements_isMachine).mpr ?_
  rintro b hb ⟨-, -, d, -, hlarge⟩
  obtain rfl := Option.some.inj hb
  simp [Bbox.last] at hlarge

/-- Two indices, the first of them the largest there is: their sum is `-2`. -/
theorem wrapped_box_accepted :
    validateBbox (some ⟨1, fun _ => 2 ^ 63 - 1, fun _ => 2, fun _ => 2 ^ 63 - 1⟩)
        tenElements = .ok ∧
      ¬ BoxExact (some ⟨1, fun _ => 2 ^ 63 - 1, fun _ => 2, fun _ => 2 ^ 63 - 1⟩) tenElements := by
  have hok : validateBbox (some ⟨1, fun _ => 2 ^ 63 - 1, fun _ => 2, fun _ => 2 ^ 63 - 1⟩)
      tenElements = .ok := by decide
  refine ⟨hok, fun hexact => ?_⟩
  obtain ⟨-, hinside⟩ := hexact.1.mp hok _ rfl
  obtain ⟨-, -, -, hall⟩ := hinside 0 (by decide)
  have hfirst := (hall 0 le_rfl (by decide)).2
  simp [tenElements] at hfirst

/-! ### Payloads -/

namespace WriteArgs

/-- The payload size over the integers. -/
def exactBytes (a : WriteArgs) : Nat :=
  ((dims a.shape.rank).map fun d => (a.shape.extents d).toNat).prod * elementSize a.dtype

/-- The arguments pass every check of `write` but the one on the size. -/
def Sound (a : WriteArgs) : Prop :=
  a.nullArg = false ∧ elementSize a.dtype ≠ 0 ∧ validateShape a.shape = true

/-- The payload size that `write` goes on with is the product, and a product that does not fit is
rejected. -/
def SizeExact (a : WriteArgs) : Prop :=
  (a.check = .ok → a.payloadBytes = a.exactBytes) ∧
    (2 ^ 64 ≤ a.exactBytes → a.check = .invalidInput)

/-- The loop computes the product, modulo `2 ^ 64`. -/
theorem foldl_count (l : List (Fin maxRank)) (extents : Fin maxRank → Int)
    (hpos : ∀ d ∈ l, 0 ≤ extents d) (count : Nat) :
    l.foldl (fun count i => u64 (count * (extents i % 2 ^ 64).toNat)) (count % 2 ^ 64) =
      (count * (l.map fun d => (extents d).toNat).prod) % 2 ^ 64 := by
  induction l generalizing count with
  | nil => simp
  | cons d l ih =>
    have hd := hpos d List.mem_cons_self
    have hmod : (extents d % 2 ^ 64).toNat = (extents d).toNat % 2 ^ 64 := by omega
    have hstep : u64 (count % 2 ^ 64 * (extents d % 2 ^ 64).toNat) =
        (count * (extents d).toNat) % 2 ^ 64 := by
      rw [u64, hmod, ← Nat.mul_mod]
    rw [List.foldl_cons, hstep, ih fun e he => hpos e (List.mem_cons_of_mem _ he), List.map_cons,
      List.prod_cons, Nat.mul_assoc]

/-- The machine's size is the product modulo `2 ^ 64`. -/
theorem payloadBytes_eq {a : WriteArgs} (h : validateShape a.shape = true) :
    a.payloadBytes = a.exactBytes % 2 ^ 64 := by
  have hpos : ∀ d ∈ dims a.shape.rank, 0 ≤ a.shape.extents d := by
    intro d hd
    simp only [validateShape, Bool.and_eq_true, List.all_eq_true, decide_eq_true_eq] at h
    exact (h.2 d hd).le
  have hcount := foldl_count (dims a.shape.rank) a.shape.extents hpos 1
  rw [Nat.mod_eq_of_lt (by decide : 1 < 2 ^ 64), Nat.one_mul] at hcount
  rw [payloadBytes, computeElementCount, hcount, u64, exactBytes, Nat.mod_mul_mod]

/-- What the check of the arguments answers. -/
theorem check_eq {a : WriteArgs} :
    a.check = .ok ∧ a.Sound ∧ a.payloadBytes ≠ 0 ∨
      a.check = .invalidInput ∧ ¬ (a.Sound ∧ a.payloadBytes ≠ 0) := by
  unfold check Sound
  split
  -- the checks in the order of the source, each with its own reason
  · next h => exact .inr ⟨rfl, fun hs => by simp [h] at hs⟩
  · next hnull =>
    split
    · next h => exact .inr ⟨rfl, fun hs => hs.1.2.1 h⟩
    · next hsize =>
      split
      · next h => exact .inr ⟨rfl, fun hs => by simp [h] at hs⟩
      · next hshape =>
        split
        · next h => exact .inr ⟨rfl, fun hs => hs.2 h⟩
        · next h => exact .inl ⟨rfl, ⟨by simpa using hnull, hsize, by simpa using hshape⟩, h⟩

/-- **Payload sizes.** The size is exact, and too large a size is rejected, unless the product does
not fit and is not a multiple of `2 ^ 64` either. -/
theorem payload_exact_iff (a : WriteArgs) :
    a.SizeExact ↔ ¬ (a.Sound ∧ 2 ^ 64 ≤ a.exactBytes ∧ ¬ 2 ^ 64 ∣ a.exactBytes) := by
  rcases check_eq (a := a) with ⟨hcheck, hsound, hne⟩ | ⟨hcheck, hnot⟩
  · rw [payloadBytes_eq hsound.2.2] at hne
    rw [SizeExact, hcheck, payloadBytes_eq hsound.2.2]
    constructor
    · rintro ⟨hexact, hreject⟩ ⟨-, hlarge, -⟩
      cases hreject hlarge
    · intro hnot
      -- a multiple of `2 ^ 64` would have been refused as an empty payload
      have hsmall : a.exactBytes < 2 ^ 64 := by
        by_contra hlarge
        refine hnot ⟨hsound, by omega, fun hdvd => hne (Nat.mod_eq_zero_of_dvd hdvd)⟩
      exact ⟨fun _ => Nat.mod_eq_of_lt hsmall, fun hlarge => by omega⟩
  · rw [SizeExact, hcheck]
    refine ⟨fun _ => ?_, fun _ => ⟨fun hok => (by cases hok), fun _ => rfl⟩⟩
    -- what is refused is not sound, or its size is zero, exactly or wrapped
    rintro ⟨hsound, -, hdvd⟩
    refine hnot ⟨hsound, fun hzero => hdvd (Nat.dvd_of_mod_eq_zero ?_)⟩
    rw [← payloadBytes_eq hsound.2.2, hzero]

/-- `2 ^ 32` rows of `2 ^ 32 + 1` bytes are taken for `2 ^ 32` bytes. -/
theorem wrapped_payload_accepted :
    ∃ a : WriteArgs, a.check = .ok ∧ a.payloadBytes = 2 ^ 32 ∧ ¬ a.SizeExact := by
  refine ⟨⟨0, [97], false, some .u8, ⟨2, fun d => if d = 0 then 2 ^ 32 else 2 ^ 32 + 1,
    fun _ => 0⟩⟩, by decide, by decide, fun hexact => ?_⟩
  have hsize := hexact.1 (by decide)
  revert hsize
  decide

end WriteArgs

end Amio
