import Mathlib.Algebra.BigOperators.Group.List.Basic
import Mathlib.Algebra.Order.BigOperators.Group.List
import Mathlib.Data.List.Forall2
import Mathlib.Tactic.Ring

/-!
# Row-major order

An array of extents `es` has one cell for each list of indices below them. Row-major order lists the
cells with the last index running fastest (`cells`), and `position` is the place of a cell in that
list. An odometer (`next`) runs through the cells in the same order.

A layout gives every dimension a stride, and a cell is stored at the sum of its indices times the
strides (`offset`). `rowMajor` are the strides for which the offset is the position. They are not
the only ones, because the stride of a dimension of extent one is never used: `Packed` says exactly
which strides are as good (`offset_eq_position_iff`). `gather` reads the cells of a layout out of a
list, in blocks of one element each.
-/

namespace RowMajor

/-- The cells in row-major order. -/
def cells : List ℕ → List (List ℕ)
  | [] => [[]]
  | e :: es => (List.range e).flatMap fun i => (cells es).map (i :: ·)

/-- The place of a cell in row-major order. -/
def position : List ℕ → List ℕ → ℕ
  | _ :: es, i :: is => i * es.prod + position es is
  | _, _ => 0

/-- Every index is below its extent. -/
def Within (es is : List ℕ) : Prop := List.Forall₂ (fun e i => i < e) es is

/-- The strides of row-major order. -/
def rowMajor : List ℕ → List ℕ
  | [] => []
  | _ :: es => es.prod :: rowMajor es

/-- Where a layout with the given strides stores a cell. -/
def offset (is : List ℕ) (ss : List ℤ) : ℤ := (List.zipWith (fun i s => (i : ℤ) * s) is ss).sum

@[simp] theorem offset_cons (i : ℕ) (is : List ℕ) (s : ℤ) (ss : List ℤ) :
    offset (i :: is) (s :: ss) = i * s + offset is ss := by
  simp [offset]

@[simp] theorem offset_nil_left (ss : List ℤ) : offset [] ss = 0 := by simp [offset]

@[simp] theorem offset_nil_right (is : List ℕ) : offset is [] = 0 := by simp [offset]

variable {e i : ℕ} {es is : List ℕ}

@[simp] theorem within_nil : Within [] is ↔ is = [] := List.forall₂_nil_left_iff

@[simp] theorem within_cons : Within (e :: es) (i :: is) ↔ i < e ∧ Within es is :=
  List.forall₂_cons

@[simp] theorem not_within_cons_nil : ¬ Within (e :: es) [] := by simp [Within]

theorem Within.length (h : Within es is) : is.length = es.length :=
  (List.Forall₂.length_eq h).symm

/-! ### Positions -/

theorem length_cells (es : List ℕ) : (cells es).length = es.prod := by
  induction es with
  | nil => rfl
  | cons e es ih =>
    rw [cells, List.length_flatMap]
    simp [ih, List.prod_cons]

theorem mem_cells : is ∈ cells es ↔ Within es is := by
  induction es generalizing is with
  | nil => simp [cells]
  | cons e es ih =>
    cases is with
    | nil => simp [cells]
    | cons i is => simp [cells, ih]

theorem position_lt (h : Within es is) : position es is < es.prod := by
  induction es generalizing is with
  | nil => simp [position]
  | cons e es ih =>
    cases is with
    | nil => exact absurd h not_within_cons_nil
    | cons i is =>
      obtain ⟨hi, his⟩ := within_cons.mp h
      have hlast := ih his
      rw [position, List.prod_cons]
      calc i * es.prod + position es is < i * es.prod + es.prod := by omega
        _ = (i + 1) * es.prod := by ring
        _ ≤ e * es.prod := Nat.mul_le_mul_right _ hi

/-- Larger indices into a larger array are farther behind. -/
theorem position_le_position {fs js : List ℕ} (hext : List.Forall₂ (· ≤ ·) es fs)
    (hidx : List.Forall₂ (· ≤ ·) is js) : position es is ≤ position fs js := by
  induction hext generalizing is js with
  | nil => exact Nat.zero_le _
  | cons hle hrest ih =>
    cases hidx with
    | nil => exact Nat.le_refl _
    | cons hi his => exact Nat.add_le_add (Nat.mul_le_mul hi hrest.prod_le_prod') (ih his)

/-- Blocks of one length: the `k`-th of them is cut out again by the length. -/
theorem take_drop_flatMap {α β : Type*} {f : α → List β} {m k : ℕ} {l : List α} {a : α}
    (hf : ∀ b ∈ l, (f b).length = m) (h : l[k]? = some a) :
    ((l.flatMap f).drop (k * m)).take m = f a := by
  induction l generalizing k with
  | nil => simp at h
  | cons b l ih =>
    have hb : (f b).length = m := hf b List.mem_cons_self
    rw [List.flatMap_cons]
    cases k with
    | zero =>
      obtain rfl : b = a := by simpa using h
      rw [Nat.zero_mul, List.drop_zero, List.take_append_of_le_length hb.ge,
        List.take_of_length_le hb.le]
    | succ k =>
      -- the first block is passed over whole
      have hskip : (k + 1) * m = (f b).length + k * m := by rw [hb]; ring
      rw [hskip, ← List.drop_drop, List.drop_left]
      exact ih (fun c hc => hf c (List.mem_cons_of_mem _ hc)) (by simpa using h)

/-- Blocks that are cut out of one list one after the other are the beginning of that list. -/
theorem flatMap_range_take_drop {α : Type*} (l : List α) (m n : ℕ) :
    ((List.range n).flatMap fun k => (l.drop (k * m)).take m) = l.take (n * m) := by
  induction n with
  | zero => simp
  | succ n ih =>
    rw [List.range_succ, List.flatMap_append, ih, List.flatMap_singleton, Nat.succ_mul,
      List.take_add]

/-- **A cell stands at its position.** -/
theorem getElem?_cells (h : Within es is) : (cells es)[position es is]? = some is := by
  induction es generalizing is with
  | nil =>
    obtain rfl := within_nil.mp h
    rfl
  | cons e es ih =>
    cases is with
    | nil => exact absurd h not_within_cons_nil
    | cons i is =>
      obtain ⟨hi, his⟩ := within_cons.mp h
      -- each leading index owns one block of `es.prod` cells
      have hlen : ∀ i ∈ List.range e, ((cells es).map (i :: ·)).length = es.prod := fun i _ => by
        rw [List.length_map, length_cells]
      have hblock := take_drop_flatMap hlen (List.getElem?_range hi)
      have hlast := position_lt his
      rw [cells, position, ← List.getElem?_drop, ← List.getElem?_take_of_lt hlast, hblock,
        List.getElem?_map, ih his]
      rfl

theorem drop_cells (h : Within es is) :
    (cells es).drop (position es is) = is :: (cells es).drop (position es is + 1) := by
  obtain ⟨hlt, heq⟩ := List.getElem?_eq_some_iff.mp (getElem?_cells h)
  rw [List.drop_eq_getElem_cons hlt, heq]

/-- The positions of the cells are counted up. -/
theorem map_position_cells (es : List ℕ) : (cells es).map (position es) = List.range es.prod := by
  induction es with
  | nil => rfl
  | cons e es ih =>
    -- the block of leading index `i` is the range shifted by `i * es.prod`
    have hblock : ∀ i, ((cells es).map (i :: ·)).map (position (e :: es)) =
        (List.range es.prod).map (i * es.prod + ·) := fun i => by
      rw [← ih, List.map_map, List.map_map]
      rfl
    -- and the shifted ranges follow one another
    have hcount : ∀ n,
        ((List.range n).flatMap fun i => (List.range es.prod).map (i * es.prod + ·)) =
          List.range (n * es.prod) := fun n => by
      induction n with
      | zero => simp
      | succ n ihn =>
        rw [List.range_succ, List.flatMap_append, ihn, List.flatMap_singleton, Nat.succ_mul,
          List.range_add]
    rw [cells, List.map_flatMap, List.prod_cons, ← hcount]
    exact List.flatMap_congr fun i _ => hblock i

/-- Two cells do not share a position. -/
theorem position_inj {js : List ℕ} (hi : Within es is) (hj : Within es js)
    (h : position es is = position es js) : is = js := by
  have hsame := getElem?_cells hi
  rw [h, getElem?_cells hj] at hsame
  exact (Option.some.inj hsame).symm

/-! ### The odometer -/

/-- The next cell; the flag is whether the odometer has turned over. -/
def next : List ℕ → List ℕ → List ℕ × Bool
  | e :: es, i :: is =>
    match next es is with
    | (is', false) => (i :: is', false)
    | (is', true) => if i + 1 < e then ((i + 1) :: is', false) else (0 :: is', true)
  | _, _ => ([], true)

theorem position_zeros (es : List ℕ) : position es (es.map fun _ => 0) = 0 := by
  induction es with
  | nil => rfl
  | cons e es ih =>
    show 0 * es.prod + position es (es.map fun _ => 0) = 0
    rw [ih, Nat.zero_mul]

theorem within_zeros (hpos : ∀ e ∈ es, 0 < e) : Within es (es.map fun _ => 0) := by
  induction es with
  | nil => simp
  | cons e es ih =>
    exact within_cons.mpr
      ⟨hpos e List.mem_cons_self, ih fun x hx => hpos x (List.mem_cons_of_mem _ hx)⟩

/-- **One turn of the odometer**: to the cell at the next position, or from the last one to the
first. -/
theorem next_spec (hpos : ∀ e ∈ es, 0 < e) (h : Within es is) :
    Within es (next es is).1 ∧
      (if (next es is).2 then position es is + 1 = es.prod ∧ (next es is).1 = es.map fun _ => 0
        else position es (next es is).1 = position es is + 1) := by
  induction es generalizing is with
  | nil =>
    obtain rfl := within_nil.mp h
    simp [next, position]
  | cons e es ih =>
    cases is with
    | nil => exact absurd h not_within_cons_nil
    | cons i is =>
      obtain ⟨hi, his⟩ := within_cons.mp h
      have hpos' : ∀ x ∈ es, 0 < x := fun x hx => hpos x (List.mem_cons_of_mem _ hx)
      obtain ⟨hwithin, hnext⟩ := ih hpos' his
      rcases hres : next es is with ⟨is', carry⟩
      rw [hres] at hwithin hnext
      cases carry with
      -- the inner indices have moved, and this one stays
      | false =>
        have hnext : position es is' = position es is + 1 := hnext
        simp only [next, hres, within_cons, position, hnext]
        exact ⟨⟨hi, hwithin⟩, by simp [Nat.add_assoc]⟩
      | true =>
        obtain ⟨hlast, rfl⟩ : position es is + 1 = es.prod ∧ is' = es.map fun _ => 0 := hnext
        -- they have wrapped around, so that this one moves, or wraps around as well
        by_cases hroom : i + 1 < e
        · simp only [next, hres, if_pos hroom, within_cons, position, position_zeros]
          refine ⟨⟨hroom, hwithin⟩, ?_⟩
          rw [← hlast]
          simp
          ring
        · obtain rfl : e = i + 1 := by omega
          simp only [next, hres, if_neg hroom, within_cons, position, if_true]
          refine ⟨⟨Nat.succ_pos i, hwithin⟩, ?_, rfl⟩
          rw [List.prod_cons, ← hlast]
          ring

/-! ### Layouts -/

theorem offset_zeros (es : List ℕ) (ss : List ℤ) : offset (es.map fun _ => 0) ss = 0 := by
  induction es generalizing ss with
  | nil => simp
  | cons e es ih =>
    cases ss with
    | nil => simp
    | cons s ss =>
      show offset (0 :: es.map fun _ => 0) (s :: ss) = 0
      rw [offset_cons, ih]
      simp

theorem offset_rowMajor (h : Within es is) :
    offset is ((rowMajor es).map Int.ofNat) = position es is := by
  induction es generalizing is with
  | nil => simp [rowMajor, position]
  | cons e es ih =>
    cases is with
    | nil => exact absurd h not_within_cons_nil
    | cons i is =>
      obtain ⟨-, his⟩ := within_cons.mp h
      simp [rowMajor, position, ih his]

/-- The strides are those of row-major order, where they matter. -/
def Packed : List ℕ → List ℤ → Prop
  | e :: es, s :: ss => (1 < e → s = es.prod) ∧ Packed es ss
  | [], [] => True
  | _, _ => False

instance decidablePacked : ∀ es ss, Decidable (Packed es ss)
  | _ :: es, _ :: ss => @instDecidableAnd _ _ inferInstance (decidablePacked es ss)
  | [], [] => isTrue trivial
  | [], _ :: _ => isFalse id
  | _ :: _, [] => isFalse id

theorem Packed.offset_eq {ss : List ℤ} (hp : Packed es ss) (h : Within es is) :
    offset is ss = position es is := by
  induction es generalizing is ss with
  | nil =>
    obtain rfl := within_nil.mp h
    simp [position]
  | cons e es ih =>
    cases is with
    | nil => exact absurd h not_within_cons_nil
    | cons i is =>
      cases ss with
      | nil => exact hp.elim
      | cons s ss =>
        obtain ⟨hi, his⟩ := within_cons.mp h
        obtain ⟨hs, hp⟩ := hp
        rw [offset_cons, ih hp his, position]
        -- a stride is free where there is only one index to multiply it by
        by_cases he : 1 < e
        · rw [hs he, Nat.cast_add, Nat.cast_mul]
        · obtain rfl : i = 0 := by omega
          simp

/-- **Which layouts are row-major.** -/
theorem offset_eq_position_iff {ss : List ℤ} (hpos : ∀ e ∈ es, 0 < e)
    (hlen : ss.length = es.length) :
    (∀ is, Within es is → offset is ss = position es is) ↔ Packed es ss := by
  refine ⟨fun h => ?_, fun hp is his => hp.offset_eq his⟩
  induction es generalizing ss with
  | nil =>
    obtain rfl := List.length_eq_zero_iff.mp hlen
    trivial
  | cons e es ih =>
    cases ss with
    | nil => simp at hlen
    | cons s ss =>
      have hpos' : ∀ x ∈ es, 0 < x := fun x hx => hpos x (List.mem_cons_of_mem _ hx)
      refine ⟨fun he => ?_, ih hpos' (by simpa using hlen) fun is his => ?_⟩
      -- the second block of the outermost dimension begins at its stride
      · have hzeros := within_zeros hpos'
        have hone := h (1 :: es.map fun _ => 0) (within_cons.mpr ⟨he, hzeros⟩)
        have hzero := h (0 :: es.map fun _ => 0)
          (within_cons.mpr ⟨hpos e List.mem_cons_self, hzeros⟩)
        simp only [offset_cons, position, position_zeros] at hone hzero
        simp only [Nat.cast_add, Nat.cast_mul, Nat.cast_one, Nat.cast_zero] at hone hzero
        omega
      · have hcell := h (0 :: is) (within_cons.mpr ⟨hpos e List.mem_cons_self, his⟩)
        simpa [position] using hcell

/-- A layout whose strides are given in part: a zero stands for the row-major stride. -/
def resolve : List ℕ → List ℤ → List ℤ
  | _ :: es, s :: ss => (if s = 0 then (es.prod : ℤ) else s) :: resolve es ss
  | _, _ => []

theorem length_resolve {ss : List ℤ} (h : ss.length = es.length) :
    (resolve es ss).length = es.length := by
  induction es generalizing ss with
  | nil => simp [resolve]
  | cons e es ih =>
    cases ss with
    | nil => simp at h
    | cons s ss => simp [resolve, ih (by simpa using h)]

theorem resolve_of_ne_zero {ss : List ℤ} (hlen : ss.length = es.length) (h : ∀ s ∈ ss, s ≠ 0) :
    resolve es ss = ss := by
  induction es generalizing ss with
  | nil =>
    obtain rfl := List.length_eq_zero_iff.mp hlen
    rfl
  | cons e es ih =>
    cases ss with
    | nil => rfl
    | cons s ss =>
      rw [resolve, if_neg (h s List.mem_cons_self),
        ih (by simpa using hlen) fun t ht => h t (List.mem_cons_of_mem _ ht)]

/-- The last cell. -/
def last (es : List ℕ) : List ℕ := es.map (· - 1)

theorem within_last (hpos : ∀ e ∈ es, 0 < e) : Within es (last es) := by
  induction es with
  | nil => simp [last]
  | cons e es ih =>
    have he := hpos e List.mem_cons_self
    exact within_cons.mpr
      ⟨Nat.sub_lt he Nat.one_pos, ih fun x hx => hpos x (List.mem_cons_of_mem _ hx)⟩

theorem position_last (hpos : ∀ e ∈ es, 0 < e) : position es (last es) + 1 = es.prod := by
  induction es with
  | nil => rfl
  | cons e es ih =>
    have he := hpos e List.mem_cons_self
    have hlast := ih fun x hx => hpos x (List.mem_cons_of_mem _ hx)
    obtain ⟨n, rfl⟩ : ∃ n, e = n + 1 := ⟨e - 1, by omega⟩
    show n * es.prod + position es (last es) + 1 = ((n + 1) :: es).prod
    rw [List.prod_cons, ← hlast]
    ring

/-- When no cell is stored before the origin, the last cell is the farthest one. -/
theorem offset_le_last {ss : List ℤ} (hpos : ∀ e ∈ es, 0 < e)
    (hnonneg : ∀ js, Within es js → 0 ≤ offset js ss) (h : Within es is) :
    offset is ss ≤ offset (last es) ss := by
  induction es generalizing is ss with
  | nil =>
    obtain rfl := within_nil.mp h
    simp [last]
  | cons e es ih =>
    cases is with
    | nil => exact absurd h not_within_cons_nil
    | cons i is =>
      cases ss with
      | nil => simp
      | cons s ss =>
        obtain ⟨hi, his⟩ := within_cons.mp h
        have he := hpos e List.mem_cons_self
        have hpos' : ∀ x ∈ es, 0 < x := fun x hx => hpos x (List.mem_cons_of_mem _ hx)
        -- the cells of the first block are not before the origin
        have htail : ∀ js, Within es js → 0 ≤ offset js ss := fun js hjs => by
          simpa using hnonneg (0 :: js) (within_cons.mpr ⟨he, hjs⟩)
        have hrest := ih hpos' htail his
        show offset (i :: is) (s :: ss) ≤ offset ((e - 1) :: last es) (s :: ss)
        rw [offset_cons, offset_cons]
        rcases Nat.lt_or_ge 1 e with hlarge | hone
        · -- the first cell of the second block is not before the origin
          have hs : 0 ≤ s := by
            have hunit := hnonneg (1 :: es.map fun _ => 0)
              (within_cons.mpr ⟨hlarge, within_zeros hpos'⟩)
            have hzero : offset (es.map fun _ => 0) ss = 0 := offset_zeros es ss
            rw [offset_cons, hzero] at hunit
            simpa using hunit
          have hle : (i : ℤ) * s ≤ ((e - 1 : ℕ) : ℤ) * s := by
            refine Int.mul_le_mul_of_nonneg_right ?_ hs
            omega
          omega
        · obtain rfl : e = 1 := by omega
          obtain rfl : i = 0 := by omega
          simpa using hrest

/-! ### Reading a layout -/

section Gather

variable {α : Type*} {l : List α} {m k : ℕ} {ks : List ℕ}

/-- The blocks of `m` entries at the given places, one after the other; there is no answer when one
of them is not inside the list. -/
def gather (l : List α) (m : ℕ) : List ℕ → Option (List α)
  | [] => some []
  | k :: ks =>
    if (k + 1) * m ≤ l.length then (gather l m ks).map ((l.drop (k * m)).take m ++ ·) else none

theorem gather_eq_some (h : ∀ k ∈ ks, (k + 1) * m ≤ l.length) :
    gather l m ks = some (ks.flatMap fun k => (l.drop (k * m)).take m) := by
  induction ks with
  | nil => rfl
  | cons k ks ih =>
    rw [gather, if_pos (h k List.mem_cons_self), ih fun x hx => h x (List.mem_cons_of_mem _ hx)]
    rfl

theorem gather_eq_none (h : k ∈ ks) (hout : l.length < (k + 1) * m) : gather l m ks = none := by
  induction ks with
  | nil => simp at h
  | cons j ks ih =>
    rw [gather]
    split
    · next hin =>
      rcases List.mem_cons.mp h with rfl | hmem
      · omega
      · rw [ih hmem]
        rfl
    · rfl

theorem gather_inside {out : List α} (h : gather l m ks = some out) :
    ∀ k ∈ ks, (k + 1) * m ≤ l.length := by
  intro k hk
  by_contra hout
  rw [gather_eq_none hk (by omega)] at h
  cases h

theorem length_block (h : (k + 1) * m ≤ l.length) : ((l.drop (k * m)).take m).length = m := by
  rw [Nat.add_mul, Nat.one_mul] at h
  rw [List.length_take, List.length_drop]
  omega

theorem length_gather {out : List α} (h : gather l m ks = some out) :
    out.length = ks.length * m := by
  have hin := gather_inside h
  rw [gather_eq_some hin] at h
  obtain rfl := Option.some.inj h
  rw [List.length_flatMap, List.map_congr_left fun k hk => length_block (hin k hk)]
  simp

/-- The `j`-th block that was gathered is the one at the `j`-th place. -/
theorem gather_block {out : List α} {j : ℕ} (h : gather l m ks = some out) (hj : ks[j]? = some k) :
    (out.drop (j * m)).take m = (l.drop (k * m)).take m := by
  have hin := gather_inside h
  rw [gather_eq_some hin] at h
  obtain rfl := Option.some.inj h
  exact take_drop_flatMap (fun k hk => length_block (hin k hk)) hj

/-- Row-major order reads the beginning of the list. -/
theorem gather_positions (h : es.prod * m ≤ l.length) :
    gather l m ((cells es).map (position es)) = some (l.take (es.prod * m)) := by
  rw [map_position_cells, gather_eq_some, flatMap_range_take_drop]
  intro k hk
  have hlt := List.mem_range.mp hk
  calc (k + 1) * m ≤ es.prod * m := Nat.mul_le_mul_right _ hlt
    _ ≤ l.length := h

/-- The places at which a layout stores its cells. -/
def places (es : List ℕ) (ss : List ℤ) : List ℕ := (cells es).map fun is => (offset is ss).toNat

theorem mem_places {ss : List ℤ} :
    k ∈ places es ss ↔ ∃ is, Within es is ∧ (offset is ss).toNat = k := by
  simp [places, mem_cells]

theorem length_places (es : List ℕ) (ss : List ℤ) : (places es ss).length = es.prod := by
  rw [places, List.length_map, length_cells]

theorem getElem?_places {ss : List ℤ} (h : Within es is) :
    (places es ss)[position es is]? = some (offset is ss).toNat := by
  rw [places, List.getElem?_map, getElem?_cells h]
  rfl

theorem drop_places {ss : List ℤ} (h : Within es is) :
    (places es ss).drop (position es is) =
      (offset is ss).toNat :: (places es ss).drop (position es is + 1) := by
  obtain ⟨hlt, heq⟩ := List.getElem?_eq_some_iff.mp (getElem?_places h)
  rw [List.drop_eq_getElem_cons hlt, heq]

theorem Packed.places_eq {ss : List ℤ} (hp : Packed es ss) :
    places es ss = (cells es).map (position es) := by
  refine List.map_congr_left fun is his => ?_
  rw [hp.offset_eq (mem_cells.mp his), Int.toNat_natCast]

/-- Reading a row-major layout is reading the beginning of the list. -/
theorem Packed.gather_eq {ss : List ℤ} (hp : Packed es ss) (hpos : ∀ e ∈ es, 0 < e) :
    gather l m (places es ss) =
      if es.prod * m ≤ l.length then some (l.take (es.prod * m)) else none := by
  rw [hp.places_eq]
  split
  · next h => exact gather_positions h
  · next h =>
    have hlast := position_last hpos
    refine gather_eq_none (List.mem_map.mpr ⟨last es, mem_cells.mpr (within_last hpos), rfl⟩) ?_
    rw [hlast]
    omega

/-- What is not read may be cut off. -/
theorem gather_take {n : ℕ} (h : ∀ k ∈ ks, (k + 1) * m ≤ n) (hn : n ≤ l.length) :
    gather (l.take n) m ks = gather l m ks := by
  have hlen : (l.take n).length = n := by
    rw [List.length_take]
    omega
  rw [gather_eq_some (by rwa [hlen]), gather_eq_some fun k hk => (h k hk).trans hn]
  refine congrArg some (List.flatMap_congr fun k hk => ?_)
  have hk := h k hk
  rw [Nat.add_mul, Nat.one_mul] at hk
  rw [List.drop_take, List.take_take, Nat.min_eq_left (by omega)]

end Gather

end RowMajor
