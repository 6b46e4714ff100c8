import Mathlib.Data.List.Perm.Basic
import Mathlib.Logic.Function.Basic

/-!
# Traces

Actions that carry a key. Those of one key keep their order, those of different keys may be
exchanged: a trace is a sequence up to such exchanges, and is known by its parts, one for each key.

* `Agree` — two sequences have the same part for every key;
* `Agree.foldl_eq` — if actions of different keys commute, sequences that agree do the same;
* `exists_completion` — a sequence whose parts are prefixes of those of another can be continued
  until it agrees with the other.
-/

namespace Traces

universe u v w

variable {ι : Type u} {κ : Type v} {σ : Type w} [DecidableEq κ] {key : ι → κ} {xs ys zs : List ι}

/-- The part of a sequence for one key. -/
def part (key : ι → κ) (xs : List ι) (k : κ) : List ι := xs.filter (key · = k)

/-- The same part for every key. -/
def Agree (key : ι → κ) (xs ys : List ι) : Prop := ∀ k, part key xs k = part key ys k

@[simp] theorem part_nil (k : κ) : part key [] k = [] := rfl

@[simp] theorem part_append (xs ys : List ι) (k : κ) :
    part key (xs ++ ys) k = part key xs k ++ part key ys k :=
  List.filter_append _ _

theorem part_cons_self (x : ι) (xs : List ι) :
    part key (x :: xs) (key x) = x :: part key xs (key x) :=
  List.filter_cons_of_pos (decide_eq_true rfl)

theorem part_cons_of_ne {x : ι} {k : κ} (h : key x ≠ k) (xs : List ι) :
    part key (x :: xs) k = part key xs k :=
  List.filter_cons_of_neg (by simpa using h)

theorem mem_part {x : ι} {k : κ} : x ∈ part key xs k ↔ x ∈ xs ∧ key x = k := by
  simp [part]

theorem part_eq_nil {k : κ} (h : ∀ x ∈ xs, key x ≠ k) : part key xs k = [] :=
  List.filter_eq_nil_iff.mpr fun x hx => by simpa using h x hx

/-! ### Taking an action out -/

/-- The first action of a part, and what the sequence is without it. -/
theorem exists_first {x : ι} (h : [x] <+: part key ys (key x)) :
    ∃ us vs, ys = us ++ x :: vs ∧ ∀ y ∈ us, key y ≠ key x := by
  induction ys with
  | nil => exact absurd (List.prefix_nil.mp h) (List.cons_ne_nil x [])
  | cons y ys ih =>
    by_cases hy : key y = key x
    · rw [← hy, part_cons_self, hy] at h
      obtain ⟨rfl, -⟩ := List.cons_prefix_cons.mp h
      exact ⟨[], ys, rfl, nofun⟩
    · rw [part_cons_of_ne hy] at h
      obtain ⟨us, vs, rfl, hus⟩ := ih h
      refine ⟨y :: us, vs, rfl, fun z hz => ?_⟩
      rcases List.mem_cons.mp hz with rfl | hz
      · exact hy
      · exact hus z hz

/-- Without the first action of its key, a sequence loses that action from one part. -/
theorem part_remove {x : ι} {us vs : List ι} (hus : ∀ y ∈ us, key y ≠ key x) (k : κ) :
    part key (us ++ x :: vs) k = part key (x :: (us ++ vs)) k := by
  by_cases hk : key x = k
  · subst hk
    rw [part_append, part_eq_nil hus, List.nil_append, part_cons_self, part_cons_self, part_append,
      part_eq_nil hus, List.nil_append]
  · rw [part_append, part_cons_of_ne hk, part_cons_of_ne hk, part_append]

theorem agree_cons {x : ι} (h : ∀ k, part key (x :: xs) k = part key (x :: ys) k) :
    Agree key xs ys := by
  intro k
  by_cases hk : key x = k
  · have hx := h k
    subst hk
    rw [part_cons_self, part_cons_self] at hx
    exact List.tail_eq_of_cons_eq hx
  · have hx := h k
    rwa [part_cons_of_ne hk, part_cons_of_ne hk] at hx

theorem Agree.cons {x : ι} (h : Agree key xs ys) : Agree key (x :: xs) (x :: ys) := by
  intro k
  by_cases hk : key x = k
  · subst hk
    rw [part_cons_self, part_cons_self, h]
  · rw [part_cons_of_ne hk, part_cons_of_ne hk, h]

theorem Agree.nil_left (h : Agree key [] ys) : ys = [] := by
  cases ys with
  | nil => rfl
  | cons y ys =>
    have hy := h (key y)
    rw [part_cons_self] at hy
    cases hy

/-! ### Actions that commute -/

/-- Actions of different keys may be exchanged. -/
def Commutes (key : ι → κ) (act : σ → ι → σ) : Prop :=
  ∀ x y, key x ≠ key y → ∀ s, act (act s x) y = act (act s y) x

variable {act : σ → ι → σ}

omit [DecidableEq κ] in
/-- An action comes before those of other keys as well as after them. -/
theorem Commutes.foldl_swap (hact : Commutes key act) {x : ι} {us : List ι}
    (hus : ∀ y ∈ us, key y ≠ key x) (s : σ) : us.foldl act (act s x) = act (us.foldl act s) x := by
  induction us generalizing s with
  | nil => rfl
  | cons y us ih =>
    rw [List.foldl_cons, List.foldl_cons, ← ih fun z hz => hus z (List.mem_cons_of_mem _ hz),
      hact x y (Ne.symm (hus y List.mem_cons_self))]

/-- **Sequences that agree do the same.** -/
theorem Agree.foldl_eq (hact : Commutes key act) (h : Agree key xs ys) (s : σ) :
    xs.foldl act s = ys.foldl act s := by
  induction xs generalizing ys s with
  | nil => rw [h.nil_left]
  | cons x xs ih =>
    have hfirst : [x] <+: part key ys (key x) := by
      rw [← h, part_cons_self]
      exact List.cons_prefix_cons.mpr ⟨rfl, List.nil_prefix⟩
    obtain ⟨us, vs, rfl, hus⟩ := exists_first hfirst
    have hrest : Agree key xs (us ++ vs) :=
      agree_cons fun k => (h k).trans (part_remove hus k)
    calc (x :: xs).foldl act s
        = (us ++ vs).foldl act (act s x) := ih hrest (act s x)
      _ = vs.foldl act (us.foldl act (act s x)) := List.foldl_append ..
      _ = vs.foldl act (act (us.foldl act s) x) := by rw [hact.foldl_swap hus]
      _ = (us ++ x :: vs).foldl act s := by rw [List.foldl_append, List.foldl_cons]

/-- **A sequence of prefixes can be completed.** -/
theorem exists_completion (h : ∀ k, part key xs k <+: part key ys k) :
    ∃ zs, Agree key (xs ++ zs) ys := by
  induction xs generalizing ys with
  | nil => exact ⟨ys, fun _ => rfl⟩
  | cons x xs ih =>
    have hfirst : [x] <+: part key ys (key x) := by
      have hx := h (key x)
      rw [part_cons_self] at hx
      exact (List.cons_prefix_cons.mpr ⟨rfl, List.nil_prefix⟩ : [x] <+: x :: _).trans hx
    obtain ⟨us, vs, rfl, hus⟩ := exists_first hfirst
    have hrest : ∀ k, part key xs k <+: part key (us ++ vs) k := by
      intro k
      have hk := h k
      rw [part_remove hus] at hk
      by_cases hx : key x = k
      · subst hx
        rw [part_cons_self, part_cons_self] at hk
        exact (List.cons_prefix_cons.mp hk).2
      · rwa [part_cons_of_ne hx, part_cons_of_ne hx] at hk
    obtain ⟨zs, hzs⟩ := ih hrest
    exact ⟨zs, fun k => (hzs.cons k).trans (part_remove hus k).symm⟩

/-- Sequences that agree are permutations of each other. -/
theorem Agree.perm (h : Agree key xs ys) : xs.Perm ys := by
  classical
  refine List.perm_iff_count.mpr fun x => ?_
  have hx := congrArg (List.count x) (h (key x))
  rwa [part, part, List.count_filter (by simp), List.count_filter (by simp)] at hx

/-- Each key has a place of its own in a store. -/
theorem commutes_update {τ : Type w} (f : ι → τ → τ) :
    Commutes key fun (s : κ → τ) x => Function.update s (key x) (f x (s (key x))) := by
  intro x y hne s
  simp only [Function.update_of_ne (Ne.symm hne), Function.update_of_ne hne]
  exact Function.update_comm hne _ _ _

end Traces
