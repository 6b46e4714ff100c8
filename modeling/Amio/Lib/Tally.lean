import Mathlib.Algebra.BigOperators.Group.Finset.Basic
import Mathlib.Algebra.BigOperators.Group.Finset.Piecewise
import Mathlib.Algebra.Order.BigOperators.Group.Finset
import Mathlib.Algebra.Order.Group.Nat
import Mathlib.Tactic.Abel

/-!
# Totals over an indexed family

A component with `n` threads keeps its per-thread state in a function `f : ℕ → β` of which the
first `n` entries count. `tally g f n` is the total of `g` over them, in any commutative monoid:
a number of threads when `g` counts, the multiset of what the threads hold when `g` is a multiset.
A step of one thread changes one entry, and `tally_update` says what that does to the total.

The first section is about the entries themselves: what an update of one entry leaves as it was, in
a family and in a family of families.
-/

namespace Lts

/-! ### One entry -/

section Entry

variable {α β γ δ : Type*} [DecidableEq α] [DecidableEq β]

/-- What the new entry has in common with the old one, the family keeps. -/
theorem apply_update_eq {f : α → γ} {k : α} {x : γ} (g : γ → δ) (h : g x = g (f k)) (j : α) :
    g (Function.update f k x j) = g (f j) := by
  by_cases hj : j = k
  · subst hj
    rw [Function.update_self, h]
  · rw [Function.update_of_ne hj]

variable {f : α → β → γ} {k j : α} {d e : β} {x : γ}

theorem update_update_self : Function.update f k (Function.update (f k) d x) k d = x := by
  rw [Function.update_self, Function.update_self]

theorem update_update_of_ne (h : ¬ (j = k ∧ e = d)) :
    Function.update f k (Function.update (f k) d x) j e = f j e := by
  by_cases hj : j = k
  · subst hj
    rw [Function.update_self, Function.update_of_ne fun he => h ⟨rfl, he⟩]
  · rw [Function.update_of_ne hj]

theorem apply_update_update_eq (g : γ → δ) (h : g x = g (f k d)) (j : α) (e : β) :
    g (Function.update f k (Function.update (f k) d x) j e) = g (f j e) := by
  by_cases heq : j = k ∧ e = d
  · obtain ⟨rfl, rfl⟩ := heq
    rw [update_update_self, h]
  · rw [update_update_of_ne heq]

end Entry

/-! ### Totals -/

open Finset

variable {M β : Type*} [AddCommMonoid M]

/-- The total of `g` over the first `n` entries of `f`. -/
def tally (g : β → M) (f : ℕ → β) (n : ℕ) : M := ∑ i ∈ range n, g (f i)

variable {g : β → M} {f : ℕ → β} {n w : ℕ} {b : β}

theorem tally_succ : tally g f (n + 1) = tally g f n + g (f n) :=
  sum_range_succ _ _

theorem tally_congr {f' : ℕ → β} (h : ∀ i < n, g (f' i) = g (f i)) : tally g f' n = tally g f n :=
  sum_congr rfl fun i hi => h i (mem_range.mp hi)

/-- A step that does not change what its thread contributes does not change the total. -/
theorem tally_update_same (h : g b = g (f w)) :
    tally g (Function.update f w b) n = tally g f n := by
  exact tally_congr fun i _ => apply_update_eq g h i

/-- An entry beyond the first `n` does not count. -/
theorem tally_update_of_le (h : n ≤ w) : tally g (Function.update f w b) n = tally g f n :=
  tally_congr fun i hi => by rw [Function.update_of_ne (by omega)]

/-- **One step**: the new total and the old contribution of the thread make up the old total and
its new contribution. -/
theorem tally_update (hw : w < n) :
    tally g (Function.update f w b) n + g (f w) = tally g f n + g b := by
  have hmem : w ∈ range n := mem_range.mpr hw
  -- all other entries are as before
  have hrest : ∑ i ∈ (range n).erase w, g (Function.update f w b i) =
      ∑ i ∈ (range n).erase w, g (f i) :=
    sum_congr rfl fun i hi => by rw [Function.update_of_ne (ne_of_mem_erase hi)]
  unfold tally
  rw [← sum_erase_add _ _ hmem, ← sum_erase_add (a := w) (range n) (fun i => g (f i)) hmem, hrest,
    Function.update_self, add_right_comm]

/-- **Balance**: when what a thread gives up goes to a log, the sum of a stock, the threads and the
log is kept. -/
theorem tally_balance {M : Type*} [AddCancelCommMonoid M] {g : β → M} {total stock log log' : M}
    (hw : w < n) (hsum : total = stock + tally g f n + log)
    (hmove : g b + log' = g (f w) + log) :
    total = stock + tally g (Function.update f w b) n + log' := by
  refine add_left_cancel (a := g (f w)) ?_
  calc g (f w) + total
      = stock + tally g f n + (g (f w) + log) := by rw [hsum]; abel
    _ = stock + (tally g f n + g b) + log' := by rw [← hmove]; abel
    _ = g (f w) + (stock + tally g (Function.update f w b) n + log') := by
        rw [← tally_update hw]; abel

/-- A thread that contributed nothing adds its new contribution. -/
theorem tally_update_add (hw : w < n) (h : g (f w) = 0) :
    tally g (Function.update f w b) n = tally g f n + g b := by
  rw [← tally_update hw, h, add_zero]

/-- A thread that contributes nothing any more takes its old contribution away. -/
theorem tally_update_sub (hw : w < n) (h : g b = 0) :
    tally g (Function.update f w b) n + g (f w) = tally g f n := by
  rw [tally_update hw, h, add_zero]

theorem tally_eq_zero (h : ∀ i < n, g (f i) = 0) : tally g f n = 0 :=
  sum_eq_zero fun i hi => h i (mem_range.mp hi)

/-- Of a number-valued total, every entry is at most the whole. -/
theorem le_tally {g : β → ℕ} (hw : w < n) : g (f w) ≤ tally g f n :=
  single_le_sum (f := fun i => g (f i)) (fun _ _ => Nat.zero_le _) (mem_range.mpr hw)

/-- A number-valued total is zero only when every entry is. -/
theorem eq_zero_of_tally {g : β → ℕ} (h : tally g f n = 0) (hw : w < n) : g (f w) = 0 :=
  Nat.le_zero.mp (h ▸ le_tally hw)

/-- Two different entries that are not zero make a total of at least two. -/
theorem two_le_tally {g : β → ℕ} {w' : ℕ} (hne : w ≠ w') (hw : w < n) (hw' : w' < n)
    (h : 1 ≤ g (f w)) (h' : 1 ≤ g (f w')) : 2 ≤ tally g f n := by
  calc 2 ≤ g (f w) + g (f w') := by omega
    _ = ∑ i ∈ {w, w'}, g (f i) := (sum_pair (f := fun i => g (f i)) hne).symm
    _ ≤ tally g f n := sum_le_sum_of_subset fun i hi => by
        rcases mem_insert.mp hi with rfl | hi
        · exact mem_range.mpr hw
        · exact mem_range.mpr (mem_singleton.mp hi ▸ hw')

/-- A homomorphism goes inside a total. -/
theorem map_tally {N : Type*} [AddCommMonoid N] (φ : M →+ N) (g : β → M) (f : ℕ → β) (n : ℕ) :
    φ (tally g f n) = tally (fun b => φ (g b)) f n :=
  map_sum φ _ _

theorem tally_add {g' g'' : β → M} (h : ∀ i < n, g (f i) = g' (f i) + g'' (f i)) :
    tally g f n = tally g' f n + tally g'' f n := by
  unfold tally
  rw [← sum_add_distrib]
  exact sum_congr rfl fun i hi => h i (mem_range.mp hi)

theorem tally_mono {g g' : β → ℕ} (h : ∀ i < n, g (f i) ≤ g' (f i)) : tally g f n ≤ tally g' f n :=
  sum_le_sum fun i hi => h i (mem_range.mp hi)

/-- **Counting by an injection**: when the entries that count, one each, can be told apart by a
number below `m`, their total is at most `m`. -/
theorem tally_le_of_injOn {g : β → ℕ} {m : ℕ} (hg : ∀ b, g b ≤ 1) (φ : ℕ → ℕ)
    (hφ : ∀ i < n, g (f i) = 1 → φ i < m)
    (hinj : ∀ i < n, ∀ j < n, g (f i) = 1 → g (f j) = 1 → φ i = φ j → i = j) :
    tally g f n ≤ m := by
  -- the entries are zero or one, so the total counts those that are one
  have hcard : tally g f n = ((range n).filter fun i => g (f i) = 1).card := by
    rw [card_filter]
    refine sum_congr rfl fun i _ => ?_
    have := hg (f i)
    split <;> omega
  rw [hcard, ← card_range m]
  refine card_le_card_of_injOn φ ?_ ?_
  · intro i hi
    obtain ⟨hin, hgi⟩ := mem_filter.mp hi
    exact mem_coe.mpr (mem_range.mpr (hφ i (mem_range.mp hin) hgi))
  · intro i hi j hj heq
    obtain ⟨hin, hgi⟩ := mem_filter.mp hi
    obtain ⟨hjn, hgj⟩ := mem_filter.mp hj
    exact hinj i (mem_range.mp hin) j (mem_range.mp hjn) hgi hgj heq

end Lts
