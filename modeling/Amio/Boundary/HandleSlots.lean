import Amio.Boundary.HandleTable
import Mathlib.Data.Finset.Card
import Mathlib.Data.List.Nodup

/-!
# What the slots show

What a handle table answers, read off its slots: `Shows i k x` when slot `i` is live with kind `k`
and payload `x`. Unlike the refinement of the token map this needs no bound on the number of slots
or releases. A full table mints nothing and returns the null token, and a generation that has
wrapped around makes an old token valid again, but each operation still changes what one slot shows
(`insert_shows`, `release_shows`).
-/

namespace Amio

namespace HandleTable

variable {α : Type}

/-- Slot `i` is bound to `x`. -/
def Shows (t : HandleTable α) (i : Nat) (k : HandleKind) (x : α) : Prop :=
  i < t.size ∧ (t.slot i).live = true ∧ (t.slot i).kind = k ∧ (t.slot i).payload = some x

/-- The token under which slot `i` is bound. -/
def tokenAt (t : HandleTable α) (i : Nat) : Token := pack (UInt32.ofNat i) (t.slot i).generation

/-- The structure of the slab. -/
structure Slab (t : HandleTable α) : Prop where
  size_le : t.size ≤ maxUint32
  nodup : t.freeList.Nodup
  free_iff : ∀ i, i ∈ t.freeList ↔ i < t.size ∧ (t.slot i).live = false
  gen : ∀ i, i < t.size → (t.slot i).generation ≠ 0

theorem Slab.initial : Slab (empty : HandleTable α) where
  size_le := Nat.zero_le _
  nodup := List.nodup_nil
  free_iff i := ⟨fun h => absurd h List.not_mem_nil, fun h => absurd h.1 (Nat.not_lt_zero i)⟩
  gen i h := absurd h (Nat.not_lt_zero i)

variable {t t' : HandleTable α} {i j : Nat} {k k' : HandleKind} {x y : α} {p : Option α}
  {token : Token}

/-- A slot number fits into 32 bits. -/
theorem toNat_ofNat_of_lt (h : i < maxUint32) : (UInt32.ofNat i).toNat = i := by
  rw [UInt32.toNat_ofNat']
  exact Nat.mod_eq_of_lt (h.trans (by decide))

/-- The slot of a token is the slot it was taken from. -/
theorem unpackSlot_tokenAt (h : i < maxUint32) : (unpackSlot (t.tokenAt i)).toNat = i := by
  rw [tokenAt, unpackSlot_pack]
  exact toNat_ofNat_of_lt h

/-- The generation of a token is that of its slot. -/
theorem unpackGeneration_tokenAt : unpackGeneration (t.tokenAt i) = (t.slot i).generation := by
  rw [tokenAt, unpackGeneration_pack]

/-- Slot numbers fit into 32 bits. -/
theorem Slab.lt_max (h : Slab t) (hi : i < t.size) : i < maxUint32 := hi.trans_le h.size_le

/-- What a slot shows is valid under its token, and under no other token of its kind. -/
theorem Slab.valid_iff (h : Slab t) (hshows : t.Shows i k x) :
    t.Valid token k ∧ (unpackSlot token).toNat = i ↔ token = t.tokenAt i := by
  obtain ⟨hi, hlive, hkind, -⟩ := hshows
  constructor
  -- slot and generation make the token
  · rintro ⟨⟨-, -, hgen, -⟩, hslot⟩
    rw [hslot] at hgen
    refine token_ext ?_ ?_
    · refine UInt32.toNat_inj.mp ?_
      rw [hslot, unpackSlot_tokenAt (h.lt_max hi)]
    · rw [unpackGeneration_tokenAt, hgen]
  · rintro rfl
    have hslot := unpackSlot_tokenAt (t := t) (h.lt_max hi)
    refine ⟨⟨?_, ?_, ?_, ?_⟩, hslot⟩
    · rwa [hslot]
    · rwa [hslot]
    · rw [hslot, unpackGeneration_tokenAt]
    · rwa [hslot]

/-- A token that passes is the token of the slot that shows its payload. -/
theorem lookup_shows (hlookup : t.lookup token k = (.ok, some x)) :
    t.Shows (unpackSlot token).toNat k x ∧ t.Valid token k := by
  unfold lookup at hlookup
  split at hlookup
  · cases hlookup
  · split at hlookup
    · next hvalid =>
      have hpayload := congrArg Prod.snd hlookup
      exact ⟨⟨hvalid.1, hvalid.2.1, hvalid.2.2.2, hpayload⟩, hvalid⟩
    · cases hlookup

/-- The token of a live slot is found. -/
theorem Slab.lookup_tokenAt (h : Slab t) (hshows : t.Shows i k x) :
    t.lookup (t.tokenAt i) k = (.ok, some x) := by
  obtain ⟨hvalid, hslot⟩ := (h.valid_iff hshows).mpr rfl
  have hne : t.tokenAt i ≠ 0 := by
    refine token_ne_zero ?_
    rw [unpackGeneration_tokenAt]
    exact h.gen i hshows.1
  unfold lookup
  rw [if_neg hne, if_pos hvalid, hslot, hshows.2.2.2]

/-! ### Minting -/

/-- There is a slot for another handle. -/
def Room (t : HandleTable α) : Prop := t.freeList ≠ [] ∨ t.size < maxUint32

instance (t : HandleTable α) : Decidable t.Room := inferInstanceAs (Decidable (_ ∨ _))

/-- The effect of an `insert` that finds a slot. -/
structure Bound (t : HandleTable α) (k : HandleKind) (p : Option α) (i : Nat) (token : Token)
    (t' : HandleTable α) : Prop where
  idle : ¬ (i < t.size ∧ (t.slot i).live = true)
  lt_size : i < t'.size
  size_le : t'.size ≤ maxUint32
  grows : t.size ≤ t'.size
  size_of_ne : ∀ j, j ≠ i → (j < t'.size ↔ j < t.size)
  slot_self : (t'.slot i).live = true ∧ (t'.slot i).kind = k ∧ (t'.slot i).payload = p
  slot_of_ne : ∀ j, j ≠ i → t'.slot j = t.slot j
  gen : (t'.slot i).generation ≠ 0
  nodup : t'.freeList.Nodup
  mem_free : ∀ j, j ∈ t'.freeList ↔ j ∈ t.freeList ∧ j ≠ i
  token : token = t'.tokenAt i

/-- An insertion binds one slot. -/
theorem Slab.insert_bound (h : Slab t) (hroom : t.Room) (k : HandleKind) (p : Option α) :
    ∃ i, Bound t k p i (t.insert k p).1 (t.insert k p).2 := by
  cases hfree : t.freeList with
  -- a slot of the free list is used again, with the generation it has
  | cons i rest =>
    have hnodup : (i :: rest).Nodup := hfree ▸ h.nodup
    obtain ⟨hlt, hdead⟩ := (h.free_iff i).mp (by rw [hfree]; exact List.mem_cons_self)
    refine ⟨i, ?_⟩
    simp only [HandleTable.insert, hfree, bindSlot]
    refine
      { idle := fun hlive => by simp [hdead] at hlive
        lt_size := hlt, size_le := h.size_le, grows := Nat.le_refl _, size_of_ne := by simp
        slot_self := by simp, slot_of_ne := fun j hj => Function.update_of_ne hj _ _
        gen := by simpa using h.gen i hlt, nodup := (List.nodup_cons.mp hnodup).2
        mem_free := fun j => ?_, token := by simp [tokenAt] }
    rw [hfree, List.mem_cons]
    constructor
    · intro hj
      exact ⟨.inr hj, fun heq => (List.nodup_cons.mp hnodup).1 (heq ▸ hj)⟩
    · rintro ⟨hj, hne⟩
      exact hj.resolve_left hne
  -- otherwise a new slot is appended
  | nil =>
    have hsize : t.size < maxUint32 := hroom.resolve_left fun hne => hne hfree
    refine ⟨t.size, ?_⟩
    simp only [HandleTable.insert, hfree, if_neg (Nat.not_le.mpr hsize), bindSlot,
      Function.update_self, Function.update_idem]
    refine
      { idle := fun hlive => Nat.lt_irrefl _ hlive.1
        lt_size := Nat.lt_succ_self _, size_le := hsize, grows := Nat.le_succ _
        size_of_ne := fun j hj => ?_, slot_self := by simp
        slot_of_ne := fun j hj => Function.update_of_ne hj _ _
        gen := by simp [show kMinGeneration ≠ 0 by decide], nodup := List.nodup_nil
        mem_free := by simp [hfree]
        token := by simp [tokenAt] }
    show j < t.size + 1 ↔ j < t.size
    omega

/-- A full table mints nothing. -/
theorem insert_full (hroom : ¬ t.Room) (k : HandleKind) (p : Option α) : t.insert k p = (0, t) := by
  have hfree : t.freeList = [] := by
    by_contra hne
    exact hroom (.inl hne)
  have hsize : maxUint32 ≤ t.size := Nat.not_lt.mp fun hlt => hroom (.inr hlt)
  simp only [HandleTable.insert, hfree, if_pos hsize]

/-- An insertion keeps the table in order. -/
theorem Slab.insert (h : Slab t) (k : HandleKind) (p : Option α) : Slab (t.insert k p).2 := by
  by_cases hroom : t.Room
  · obtain ⟨i, hb⟩ := h.insert_bound hroom k p
    refine ⟨hb.size_le, hb.nodup, fun j => ?_, fun j hj => ?_⟩
    -- the slot that is bound is free no longer
    · rw [hb.mem_free, h.free_iff]
      by_cases hj : j = i
      · subst hj
        simp [hb.slot_self.1]
      · rw [hb.slot_of_ne j hj, hb.size_of_ne j hj]
        simp [hj]
    · by_cases hji : j = i
      · exact hji ▸ hb.gen
      · rw [hb.slot_of_ne j hji]
        exact h.gen j ((hb.size_of_ne j hji).mp hj)
  -- a full table does not change
  · rw [insert_full hroom]
    exact h

/-- **What `insert` changes**: one slot, which showed nothing before, shows the new payload. -/
theorem Slab.insert_shows (h : Slab t) (k : HandleKind) (x : α) (j : Nat) (k' : HandleKind)
    (y : α) :
    (t.insert k (some x)).2.Shows j k' y ↔
      t.Shows j k' y ∨
        (t.Room ∧ k' = k ∧ y = x ∧ ¬ (j < t.size ∧ (t.slot j).live = true) ∧
          (t.insert k (some x)).1 = (t.insert k (some x)).2.tokenAt j ∧
          j < (t.insert k (some x)).2.size) := by
  by_cases hroom : t.Room
  · obtain ⟨i, hb⟩ := h.insert_bound hroom k (some x)
    have hmax : i < maxUint32 := hb.lt_size.trans_le hb.size_le
    by_cases hj : j = i
    · subst hj
      obtain ⟨hlive, hkind, hpayload⟩ := hb.slot_self
      constructor
      · rintro ⟨hlt, -, hk, hy⟩
        have hyx := Option.some.inj (hy.symm.trans hpayload)
        exact .inr ⟨hroom, hk.symm.trans hkind, hyx, hb.idle, hb.token, hlt⟩
      · rintro (hold | ⟨-, rfl, rfl, -, -, hlt⟩)
        · exact absurd ⟨hold.1, hold.2.1⟩ hb.idle
        · exact ⟨hlt, hlive, hkind, hpayload⟩
    · constructor
      · rintro ⟨hlt, hrest⟩
        rw [hb.slot_of_ne j hj] at hrest
        exact .inl ⟨(hb.size_of_ne j hj).mp hlt, hrest⟩
      · rintro (⟨hlt, hrest⟩ | ⟨-, -, -, -, htoken, hlt⟩)
        · refine ⟨(hb.size_of_ne j hj).mpr hlt, ?_⟩
          rw [hb.slot_of_ne j hj]
          exact hrest
        -- the token names its slot
        · have hslot := congrArg (fun t => (unpackSlot t).toNat) (hb.token.symm.trans htoken)
          rw [unpackSlot_tokenAt hmax, unpackSlot_tokenAt (hlt.trans_le hb.size_le)] at hslot
          exact absurd hslot.symm hj
  · rw [insert_full hroom]
    simp [hroom]

/-- The tokens of the live slots stay. -/
theorem Slab.insert_tokenAt (h : Slab t) (hshows : t.Shows j k' y) (k : HandleKind)
    (p : Option α) : (t.insert k p).2.tokenAt j = t.tokenAt j := by
  by_cases hroom : t.Room
  · obtain ⟨i, hb⟩ := h.insert_bound hroom k p
    have hj : j ≠ i := by
      rintro rfl
      exact hb.idle ⟨hshows.1, hshows.2.1⟩
    rw [tokenAt, tokenAt, hb.slot_of_ne j hj]
  · rw [insert_full hroom]

/-- A new handle is there under the token that was returned. -/
theorem Slab.insert_self (h : Slab t) (hroom : t.Room) (k : HandleKind) (x : α) :
    ∃ i, (t.insert k (some x)).2.Shows i k x ∧
      (t.insert k (some x)).1 = (t.insert k (some x)).2.tokenAt i ∧ ¬ ∃ k' y, t.Shows i k' y := by
  obtain ⟨i, hb⟩ := h.insert_bound hroom k (some x)
  refine ⟨i, ⟨hb.lt_size, hb.slot_self⟩, hb.token, ?_⟩
  rintro ⟨k', y, hold⟩
  exact hb.idle ⟨hold.1, hold.2.1⟩

/-! ### Releasing -/

/-- A generation is never zero. -/
theorem nextGeneration_ne_zero (g : UInt32) : nextGeneration g ≠ 0 := by
  unfold nextGeneration
  split
  · decide
  · next h => exact h

/-- A release keeps the table in order. -/
theorem Slab.release (h : Slab t) (token : Token) (k : HandleKind) :
    Slab (t.release token k).2 := by
  unfold HandleTable.release
  split
  · exact h
  · split
    · next hvalid =>
      obtain ⟨hlt, hlive, -, -⟩ := hvalid
      refine ⟨h.size_le, ?_, fun i => ?_, fun i hi => ?_⟩
      · refine List.nodup_cons.mpr ⟨fun hmem => ?_, h.nodup⟩
        -- a slot that was live is not on the free list
        have hdead := ((h.free_iff _).mp hmem).2
        rw [hlive] at hdead
        cases hdead
      · simp only [List.mem_cons, h.free_iff]
        -- the slot is free now, the others are as they were
        by_cases hi : i = (unpackSlot token).toNat
        · subst hi
          simp [hlt]
        · simp [hi]
      · by_cases heq : i = (unpackSlot token).toNat
        · subst heq
          simp [nextGeneration_ne_zero]
        · simpa [heq] using h.gen i hi
    · exact h

/-- **What `release` changes**: a valid token's slot shows nothing any more. -/
theorem Slab.release_shows (h : Slab t) (token : Token) (k : HandleKind) (j : Nat)
    (k' : HandleKind) (y : α) :
    (t.release token k).2.Shows j k' y ↔
      t.Shows j k' y ∧ ¬ (k' = k ∧ t.tokenAt j = token) := by
  have hkeep : ¬ t.Valid token k → t.Shows j k' y → ¬ (k' = k ∧ t.tokenAt j = token) := by
    rintro hnot hshows ⟨rfl, rfl⟩
    exact hnot ((h.valid_iff hshows).mpr rfl).1
  unfold HandleTable.release
  -- the token zero is refused, and no slot has it
  by_cases hzero : token = 0
  · rw [if_pos hzero]
    refine ⟨fun hshows => ⟨hshows, ?_⟩, And.left⟩
    rintro ⟨rfl, htoken⟩
    have hgen := unpackGeneration_tokenAt (t := t) (i := j)
    rw [htoken, hzero] at hgen
    exact h.gen j hshows.1 hgen.symm
  · rw [if_neg hzero]
    by_cases hvalid : t.Valid token k
    · rw [if_pos hvalid]
      -- the slot of the token, or another slot
      by_cases hj : j = (unpackSlot token).toNat
      · constructor
        · rintro ⟨-, hlive, -⟩
          simp [hj] at hlive
        · rintro ⟨hshows, hother⟩
          have hk : k' = k := by
            rw [← hshows.2.2.1, hj]
            exact hvalid.2.2.2
          refine absurd ⟨hk, ?_⟩ hother
          exact ((h.valid_iff (hk ▸ hshows)).mp ⟨hvalid, hj.symm⟩).symm
      · have hslot : Function.update t.slot (unpackSlot token).toNat
            { t.slot (unpackSlot token).toNat with
              live := false, payload := none,
              generation := nextGeneration (t.slot (unpackSlot token).toNat).generation } j =
            t.slot j := Function.update_of_ne hj _ _
        unfold Shows
        simp only [hslot]
        refine ⟨fun hshows => ⟨hshows, ?_⟩, And.left⟩
        rintro ⟨rfl, rfl⟩
        exact hj (unpackSlot_tokenAt (h.lt_max hshows.1)).symm
    -- a token that is not valid changes nothing
    · rw [if_neg hvalid]
      exact ⟨fun hshows => ⟨hshows, hkeep hvalid hshows⟩, And.left⟩

/-- The tokens of the slots that stay live stay. -/
theorem release_tokenAt (hshows : (t.release token k).2.Shows j k' y) :
    (t.release token k).2.tokenAt j = t.tokenAt j := by
  revert hshows
  unfold HandleTable.release
  split
  · exact fun _ => rfl
  · split
    · rintro ⟨-, hlive, -⟩
      have hj : j ≠ (unpackSlot token).toNat := by
        rintro rfl
        simp at hlive
      simp [tokenAt, hj]
    · exact fun _ => rfl

/-! ### Counting -/

/-- Every live slot has a payload. -/
def Filled (t : HandleTable α) : Prop :=
  ∀ i, i < t.size → (t.slot i).live = true → (t.slot i).payload ≠ none

/-- An insertion fills a free slot first. -/
theorem Filled.insert (h : Slab t) (hfilled : t.Filled) (k : HandleKind) (x : α) :
    (t.insert k (some x)).2.Filled := by
  by_cases hroom : t.Room
  · obtain ⟨i, hb⟩ := h.insert_bound hroom k (some x)
    intro j hj hlive
    by_cases hji : j = i
    · rw [hji, hb.slot_self.2.2]
      simp
    · rw [hb.slot_of_ne j hji] at hlive ⊢
      exact hfilled j ((hb.size_of_ne j hji).mp hj) hlive
  · rw [insert_full hroom]
    exact hfilled

/-- A release leaves the slots filled from the front. -/
theorem Filled.release (hfilled : t.Filled) (token : Token) (k : HandleKind) :
    (t.release token k).2.Filled := by
  unfold HandleTable.release
  split
  · exact hfilled
  · split
    · intro j hj hlive
      by_cases hji : j = (unpackSlot token).toNat
      · subst hji
        simp at hlive
      · simp only [Function.update_of_ne hji] at hlive ⊢
        exact hfilled j hj hlive
    · exact hfilled

/-- The live slots. -/
def liveSlots (t : HandleTable α) : Finset Nat :=
  (Finset.range t.size).filter fun i => (t.slot i).live = true

/-- The counter is the number of live slots. -/
theorem Slab.liveCount_eq (h : Slab t) : t.liveCount = t.liveSlots.card := by
  have hfree : t.freeList.toFinset =
      (Finset.range t.size).filter fun i => ¬ (t.slot i).live = true := by
    ext i
    simp [h.free_iff]
  have hsplit := Finset.card_filter_add_card_filter_not (s := Finset.range t.size)
    fun i => (t.slot i).live = true
  have hcard := List.toFinset_card_of_nodup h.nodup
  rw [hfree] at hcard
  rw [Finset.card_range] at hsplit
  unfold liveCount liveSlots
  omega

end HandleTable

end Amio
