import Amio.Staging.PoolInvariant

/-!
# Single owners of staging buffers

Nothing in the core calls `add_ref`: the reference a buffer carries from `acquire` passes from hand
to hand (a write call, its callback; a fetch, the staged map, a view) and ends in one `release`.
`OwnedBy` says so for a pool and a map from buffers to owners, whatever the owners are, and the
lemmas below say what `acquire`, `release` and a copy into the buffer do to it. Buffers that are
owned throughout are not touched by anybody else's operation (`Untouched`).
-/

namespace Amio

namespace StagingPool

variable {Ω : Type} {p p' : StagingPool} {owner : Nat → Option Ω} {i j r : Nat} {ω ω' : Ω}

/-- Every buffer is free or has one owner, who holds its only reference. -/
structure OwnedBy (p : StagingPool) (owner : Nat → Option Ω) : Prop where
  wf : p.WF
  held : ∀ i ω, owner i = some ω → i < p.size ∧ (p.buf i).refCount = 1 ∧ (p.buf i).data.isSome
  free : ∀ i, i < p.size → owner i = none → (p.buf i).refCount = 0

/-- The buffers that have an owner are as before. -/
def Untouched (owner : Nat → Option Ω) (p p' : StagingPool) : Prop :=
  ∀ j, owner j ≠ none → p'.buf j = p.buf j

/-- Nobody has a buffer at first. -/
theorem OwnedBy.create (Ω : Type) (a : PoolArgs) :
    OwnedBy (create a) (fun _ => (none : Option Ω)) where
  wf := .create a
  held := fun _ _ h => by cases h
  free := fun _ _ _ => rfl

/-- An owned buffer is referenced. -/
theorem OwnedBy.held_ne (h : p.OwnedBy owner) (hi : owner i = some ω) : (p.buf i).refCount ≠ 0 := by
  rw [(h.held i ω hi).2.1]; exact Nat.one_ne_zero

/-- An owned buffer is not free. -/
theorem OwnedBy.not_free (h : p.OwnedBy owner) (hi : owner i = some ω) : i ∉ p.freeList :=
  fun hmem => h.held_ne hi ((h.wf.mem_iff i (h.held i ω hi).1).mp hmem)

/-- Selecting from a pool with one more slot changes no owned buffer. -/
theorem OwnedBy.selects (h : p.OwnedBy owner) (hsel : p.Selects p') :
    p'.OwnedBy owner ∧ Untouched owner p p' := by
  rcases hsel with ⟨-, rfl⟩ | ⟨hnil, hgrow, hlt, rfl⟩
  · exact ⟨h, fun _ _ => rfl⟩
  -- the appended slot lies beyond everything that is owned
  · have hne : ∀ k, owner k ≠ none → k ≠ p.size := by
      rintro k hk rfl
      obtain ⟨ω, hω⟩ := Option.ne_none_iff_exists'.mp hk
      exact Nat.lt_irrefl _ (h.held _ ω hω).1
    have huntouched : Untouched owner p p.appendSlot := fun k hk =>
      Function.update_of_ne (hne k hk) _ _
    refine ⟨⟨h.wf.appendSlot hnil hgrow hlt, ?_, ?_⟩, huntouched⟩
    · intro k ω hk
      rw [huntouched k (by simp [hk])]
      exact ⟨Nat.lt_succ_of_lt (h.held k ω hk).1, (h.held k ω hk).2⟩
    · intro k hk hnone
      simp only [appendSlot] at hk ⊢
      by_cases hks : k = p.size
      · subst hks; rw [Function.update_self]; rfl
      · rw [Function.update_of_ne hks]
        exact h.free k (by omega) hnone

/-- What is taken had no owner, and the rest is untouched. -/
theorem OwnedBy.takes (h : p.OwnedBy owner) (ht : p.Takes r i p') :
    owner i = none ∧ Untouched owner p p' ∧ ∀ ω, p'.OwnedBy (Function.update owner i (some ω)) := by
  have hwf := h.wf.takes ht
  -- an owned buffer is held, and what is taken was on the free list
  have hnone : owner i = none := by
    by_contra hne
    obtain ⟨ω', hω'⟩ := Option.ne_none_iff_exists'.mp hne
    exact h.not_free hω' ht.1
  have hlt := h.wf.lt_size i ht.1
  obtain ⟨-, d, c, -, rfl⟩ := ht
  refine ⟨hnone, ?_, fun ω => ⟨hwf, ?_, ?_⟩⟩
  · intro k hk
    exact Function.update_of_ne (by rintro rfl; exact hk hnone) _ _
  · intro k ω' hk
    by_cases hki : k = i
    · subst hki; simp [hlt]
    · simp only [Function.update_of_ne hki] at hk ⊢
      exact h.held k ω' hk
  · intro k hk hfree
    by_cases hki : k = i
    · subst hki; simp at hfree
    · simp only [Function.update_of_ne hki] at hfree ⊢
      exact h.free k hk hfree

/-- The two forms of `acquire` do the same to the pool. -/
theorem OwnedBy.acquired_cases (h : p.OwnedBy owner) {alloc : Bool} {res : Acquired}
    (ha : p.acquireOnce r alloc = (res, p') ∨ p.acquireFinal r alloc = (res, p')) :
    (∃ q, Selects p q ∧ ((∃ i, res = .got i ∧ Takes q r i p') ∨
      (res = .threw ∧ p' = q))) ∨ (res = .blocked ∧ p' = p) := by
  rcases ha with ha | ha
  · exact (acquireOnce_cases h.wf ha).imp_right fun hb => ⟨hb.1, hb.2.1⟩
  · exact acquireFinal_cases h.wf ha

/-- **What an `acquire` does to ownership**, at its first try, after a wake-up or at its final
check: a buffer nobody owned goes to the caller, or nothing that is owned changes. -/
theorem OwnedBy.acquired (h : p.OwnedBy owner) {alloc : Bool} {res : Acquired}
    (ha : p.acquireOnce r alloc = (res, p') ∨ p.acquireFinal r alloc = (res, p')) :
    Untouched owner p p' ∧ ((∃ i, res = .got i ∧ owner i = none ∧
        ∀ ω, p'.OwnedBy (Function.update owner i (some ω))) ∨
      ((res = .threw ∨ res = .blocked) ∧ p'.OwnedBy owner)) := by
  rcases h.acquired_cases ha with ⟨q, hsel, ⟨i, rfl, ht⟩ | ⟨rfl, rfl⟩⟩ | ⟨rfl, rfl⟩
  -- a slot may have been appended first, then the buffer is taken
  · obtain ⟨hq, hun⟩ := h.selects hsel
    obtain ⟨hnone, hun', hown⟩ := hq.takes ht
    exact ⟨fun k hk => (hun' k hk).trans (hun k hk), .inl ⟨i, rfl, hnone, hown⟩⟩
  · obtain ⟨hq, hun⟩ := h.selects hsel
    -- the exception leaves an appended slot behind, on the free list
    exact ⟨hun, .inr ⟨.inl rfl, hq⟩⟩
  · exact ⟨fun _ _ => rfl, .inr ⟨.inr rfl, h⟩⟩

/-- An `acquire` that returned buffer `i`. -/
theorem OwnedBy.got (h : p.OwnedBy owner) {alloc : Bool}
    (ha : p.acquireOnce r alloc = (.got i, p') ∨ p.acquireFinal r alloc = (.got i, p')) :
    owner i = none ∧ Untouched owner p p' ∧ ∀ ω, p'.OwnedBy (Function.update owner i (some ω)) := by
  obtain ⟨hun, ⟨j, hj, hnone, hown⟩ | ⟨hres, -⟩⟩ := h.acquired ha
  · obtain rfl := Acquired.got.inj hj
    exact ⟨hnone, hun, hown⟩
  · rcases hres with hres | hres <;> cases hres

/-- … it is large enough, and the configuration of the pool is what it was. -/
theorem OwnedBy.got_capacity (h : p.OwnedBy owner) {alloc : Bool}
    (ha : p.acquireOnce r alloc = (.got i, p') ∨ p.acquireFinal r alloc = (.got i, p')) :
    r ≤ (p'.buf i).capacityBytes ∧ p'.SameConfig p := by
  rcases h.acquired_cases ha with ⟨q, hsel, ⟨j, hj, ht⟩ | ⟨hres, -⟩⟩ | ⟨hres, -⟩
  · obtain rfl := Acquired.got.inj hj
    refine ⟨?_, ht.sameConfig.trans hsel.sameConfig⟩
    obtain ⟨-, d, c, hc, rfl⟩ := ht
    simpa using (le_targetBytes q r).trans hc
  · cases hres
  · cases hres

/-- An `acquire` that waits, throws or returns `nullptr`. -/
theorem OwnedBy.denied (h : p.OwnedBy owner) {alloc : Bool} {res : Acquired}
    (ha : p.acquireOnce r alloc = (res, p') ∨ p.acquireFinal r alloc = (res, p'))
    (hne : ∀ j, res ≠ .got j) : p'.OwnedBy owner ∧ Untouched owner p p' := by
  obtain ⟨hun, ⟨j, hj, -⟩ | ⟨-, hown⟩⟩ := h.acquired ha
  · exact absurd hj (hne j)
  · exact ⟨hown, hun⟩

/-- An attempt that is refused keeps the limits. -/
theorem OwnedBy.denied_config (h : p.OwnedBy owner) {alloc : Bool} {res : Acquired}
    (ha : p.acquireOnce r alloc = (res, p') ∨ p.acquireFinal r alloc = (res, p'))
    (hne : ∀ j, res ≠ .got j) : p'.SameConfig p := by
  rcases h.acquired_cases ha with ⟨q, hsel, ⟨j, hj, -⟩ | ⟨-, rfl⟩⟩ | ⟨-, rfl⟩
  · exact absurd hj (hne j)
  · exact hsel.sameConfig
  · exact ⟨rfl, rfl, rfl, rfl⟩

/-- The owner's `release` puts the buffer back on the free list. -/
theorem OwnedBy.release (h : p.OwnedBy owner) (hi : owner i = some ω) :
    (p.release i).OwnedBy (Function.update owner i none) ∧ i ∈ (p.release i).freeList ∧
      ∀ j, j ≠ i → (p.release i).buf j = p.buf j := by
  obtain ⟨hlt, hone, -⟩ := h.held i ω hi
  have hwf := h.wf.release hlt (h.held_ne hi)
  -- the owner's reference is the only one, so this `release` is the last
  have hzero : ((p.release i).buf i).refCount = 0 := by rw [release_refCount_self, hone]
  refine ⟨⟨hwf, ?_, ?_⟩, (hwf.mem_iff i (by simpa using hlt)).mpr hzero,
    fun j hj => release_buf_of_ne p hj⟩
  · intro k ω' hk
    by_cases hki : k = i
    · subst hki; simp at hk
    · rw [Function.update_of_ne hki] at hk
      rw [release_buf_of_ne p hki, release_size]
      exact h.held k ω' hk
  · intro k hk hnone
    by_cases hki : k = i
    · subst hki; exact hzero
    · rw [Function.update_of_ne hki] at hnone
      rw [release_buf_of_ne p hki]
      exact h.free k (by simpa using hk) hnone

/-- A copy into an owned buffer makes its payload the bytes that were copied. -/
theorem OwnedBy.fill (h : p.OwnedBy owner) (hi : owner i = some ω) (bytes : List UInt8) :
    (p.fill i bytes).OwnedBy owner ∧ (p.fill i bytes).payload i = bytes ∧
      ∀ j, j ≠ i → (p.fill i bytes).buf j = p.buf j := by
  obtain ⟨hlt, hone, hdata⟩ := h.held i ω hi
  have hframe : ∀ j, j ≠ i → (p.fill i bytes).buf j = p.buf j :=
    fun j hj => Function.update_of_ne hj _ _
  -- an owned buffer has its storage, so the bytes have somewhere to go
  obtain ⟨d, hd⟩ := Option.isSome_iff_exists.mp hdata
  refine ⟨⟨h.wf.fill hlt (h.held_ne hi) bytes, ?_, ?_⟩, ?_, hframe⟩
  · intro k ω' hk
    by_cases hki : k = i
    · subst hki; simp [StagingPool.fill, setBuf, hlt, hone, hd]
    · rw [hframe k hki]; exact h.held k ω' hk
  · intro k hk hnone
    rw [hframe k (by rintro rfl; rw [hi] at hnone; cases hnone)]
    exact h.free k hk hnone
  · simp [payload, StagingPool.fill, setBuf, hd]

/-- A buffer changes hands. -/
theorem OwnedBy.transfer (h : p.OwnedBy owner) (hi : owner i = some ω) (ω' : Ω) :
    p.OwnedBy (Function.update owner i (some ω')) := by
  refine ⟨h.wf, ?_, ?_⟩
  · intro k ω'' hk
    by_cases hki : k = i
    · subst hki; exact h.held k ω hi
    · rw [Function.update_of_ne hki] at hk; exact h.held k ω'' hk
  · intro k hk hnone
    by_cases hki : k = i
    · subst hki; simp at hnone
    · rw [Function.update_of_ne hki] at hnone; exact h.free k hk hnone

theorem payload_congr (h : p'.buf i = p.buf i) : p'.payload i = p.payload i := by
  simp only [payload, h]

end StagingPool

end Amio
