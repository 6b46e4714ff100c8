import Amio.Lib.System
import Amio.Boundary.HandleTable
import Mathlib.Data.List.Nodup

/-!
# The handle table refines a token map

The abstract view of the table is its history: `HandleRun.log` lists, newest first, every minted
token with the kind and payload it was minted for and every token successfully released. A token
is `LiveAs k p` when it was returned by an `insert(k, p)` and not released since.

The table decides from its slots alone, and `HandleRun.Inv` says why that is the same thing. Below
the two capacity bounds (`Within`) a slot's generation is one more than the number of releases of
that slot (`gen`), so a generation never repeats; a minted token carries a generation at most its
slot's current one, and strictly less once the slot is not live (`issued`); and the live tokens are
exactly the ones the slots show (`live_iff`). Freshness of a new token and rejection of a stale one
are both read off `issued`.
-/

namespace Amio

variable {α : Type}

/-- One entry of the history. -/
inductive HandleEvent (α : Type)
  | inserted (kind : HandleKind) (payload : Option α) (token : Token)
  | released (token : Token)
  deriving DecidableEq

/-- `token` was returned by an `insert(kind, payload)` and has not been released since; the log
is newest first. -/
def LiveAs (log : List (HandleEvent α)) (token : Token) (kind : HandleKind)
    (payload : Option α) : Prop :=
  ∃ later earlier, log = later ++ .inserted kind payload token :: earlier ∧
    HandleEvent.released token ∉ later

/-- `token` was returned by some `insert`. -/
def Issued (log : List (HandleEvent α)) (token : Token) : Prop :=
  ∃ kind payload, HandleEvent.inserted kind payload token ∈ log

/-- The number of successful releases of slot `i`. -/
def releases (log : List (HandleEvent α)) (i : Nat) : Nat :=
  log.countP fun
    | .released token => (unpackSlot token).toNat = i
    | .inserted .. => false

section Log

variable {log : List (HandleEvent α)} {token token' : Token} {k k' : HandleKind}
  {p p' : Option α}

/-- At first no token is live. -/
theorem not_liveAs_nil : ¬ LiveAs ([] : List (HandleEvent α)) token k p := by
  rintro ⟨later, earlier, h, -⟩
  exact absurd h.symm (by simp)

/-- A live token was minted. -/
theorem LiveAs.issued (h : LiveAs log token k p) : Issued log token := by
  obtain ⟨later, earlier, rfl, -⟩ := h
  exact ⟨k, p, by simp⟩

/-- After a fresh `insert` the live tokens are the old ones and the new one. -/
theorem liveAs_inserted (hfresh : ¬ Issued log token) :
    LiveAs (.inserted k p token :: log) token' k' p' ↔
      (token' = token ∧ k' = k ∧ p' = p) ∨ LiveAs log token' k' p' := by
  constructor
  · rintro ⟨later, earlier, h, hr⟩
    -- either the new entry is the one that makes the token live, or an older one is
    cases later with
    | nil =>
      simp only [List.nil_append, List.cons.injEq, HandleEvent.inserted.injEq] at h
      obtain ⟨⟨rfl, rfl, rfl⟩, -⟩ := h
      exact .inl ⟨rfl, rfl, rfl⟩
    | cons e later =>
      simp only [List.cons_append, List.cons.injEq] at h
      exact .inr ⟨later, earlier, h.2, fun hm => hr (List.mem_cons_of_mem _ hm)⟩
  · rintro (⟨rfl, rfl, rfl⟩ | ⟨later, earlier, rfl, hr⟩)
    · exact ⟨[], log, rfl, List.not_mem_nil⟩
    · exact ⟨_ :: later, earlier, rfl, by simpa using hr⟩

/-- After a release the live tokens are the old ones without the released one. -/
theorem liveAs_released :
    LiveAs (.released token :: log) token' k' p' ↔ token' ≠ token ∧ LiveAs log token' k' p' := by
  constructor
  · rintro ⟨later, earlier, h, hr⟩
    cases later with
    | nil => exact absurd h (by simp)
    | cons e later =>
      simp only [List.cons_append, List.cons.injEq] at h
      obtain ⟨rfl, h⟩ := h
      refine ⟨fun heq => hr ?_, later, earlier, h, fun hm => hr (List.mem_cons_of_mem _ hm)⟩
      rw [heq]; exact List.mem_cons_self
  · rintro ⟨hne, later, earlier, rfl, hr⟩
    exact ⟨_ :: later, earlier, rfl, by simpa [hne] using hr⟩

/-- The token of an insertion is minted now. -/
theorem issued_inserted :
    Issued (.inserted k p token :: log) token' ↔ token' = token ∨ Issued log token' := by
  constructor
  · rintro ⟨k', p', h⟩
    rcases List.mem_cons.mp h with h | h
    · simp only [HandleEvent.inserted.injEq] at h
      exact .inl h.2.2
    · exact .inr ⟨k', p', h⟩
  · rintro (rfl | ⟨k', p', h⟩)
    · exact ⟨k, p, List.mem_cons_self⟩
    · exact ⟨k', p', List.mem_cons_of_mem _ h⟩

theorem issued_released :
    Issued (.released token :: log) token' ↔ Issued log token' := by
  constructor
  · rintro ⟨k', p', h⟩
    exact ⟨k', p', by simpa using h⟩
  · rintro ⟨k', p', h⟩
    exact ⟨k', p', List.mem_cons_of_mem _ h⟩

@[simp] theorem releases_inserted (i : Nat) :
    releases (.inserted k p token :: log) i = releases log i := by
  simp [releases]

/-- A release counts for its slot. -/
theorem releases_released (i : Nat) :
    releases (.released token :: log) i =
      releases log i + if (unpackSlot token).toNat = i then 1 else 0 := by
  simp [releases, List.countP_cons]

end Log

/-! ### Runs of the table -/

/-- A table with its history. -/
structure HandleRun (α : Type) where
  table : HandleTable α
  log : List (HandleEvent α)

inductive HandleOp (α : Type)
  | insert (kind : HandleKind) (payload : Option α)
  | lookup (token : Token) (kind : HandleKind)
  | release (token : Token) (kind : HandleKind)

namespace HandleRun

/-- One call on the table. A lookup or a failed release leaves the history alone. -/
def step (s : HandleRun α) : HandleOp α → Option (HandleRun α)
  | .insert kind payload =>
    some ⟨(s.table.insert kind payload).2,
      .inserted kind payload (s.table.insert kind payload).1 :: s.log⟩
  | .lookup _ _ => some s
  -- a release that is refused leaves no trace
  | .release token kind =>
    some ⟨(s.table.release token kind).2,
      if (s.table.release token kind).1 = .ok then .released token :: s.log else s.log⟩

def system (α : Type) : Lts.System (HandleRun α) (HandleOp α) where
  init s := s = ⟨.empty, []⟩
  step := step

/-- The capacity bounds: fewer than `2 ^ 32 - 1` slots, and no slot released `2 ^ 32 - 1` times. -/
def Within (s : HandleRun α) : Prop :=
  s.table.size < maxUint32 ∧ ∀ i, releases s.log i < maxUint32

/-- The invariant that links slots and history. -/
structure Inv (s : HandleRun α) : Prop where
  free_nodup : s.table.freeList.Nodup
  free_lt : ∀ i ∈ s.table.freeList, i < s.table.size
  free_iff : ∀ i, i < s.table.size → (i ∈ s.table.freeList ↔ (s.table.slot i).live = false)
  gen : ∀ i, i < s.table.size → (s.table.slot i).generation.toNat = releases s.log i + 1
  gen_none : ∀ i, s.table.size ≤ i → releases s.log i = 0
  live_iff : ∀ token k p, LiveAs s.log token k p ↔
    s.table.Valid token k ∧ (s.table.slot (unpackSlot token).toNat).payload = p
  issued : ∀ token, Issued s.log token →
    (unpackSlot token).toNat < s.table.size ∧ unpackGeneration token ≠ 0 ∧
    (unpackGeneration token).toNat ≤ (s.table.slot (unpackSlot token).toNat).generation.toNat ∧
    ((s.table.slot (unpackSlot token).toNat).live = false →
      (unpackGeneration token).toNat < (s.table.slot (unpackSlot token).toNat).generation.toNat)

variable {s s' : HandleRun α} {token : Token} {k : HandleKind} {p : Option α}

theorem Inv.initial : Inv (⟨.empty, []⟩ : HandleRun α) where
  free_nodup := List.nodup_nil
  free_lt := fun _ h => absurd h List.not_mem_nil
  free_iff := fun _ h => absurd h (Nat.not_lt_zero _)
  gen := fun _ h => absurd h (Nat.not_lt_zero _)
  gen_none := fun _ _ => rfl
  live_iff := fun _ _ _ =>
    ⟨fun h => absurd h not_liveAs_nil, fun h => absurd h.1.1 (Nat.not_lt_zero _)⟩
  issued := by
    rintro token ⟨k, p, h⟩
    exact absurd h List.not_mem_nil

/-! ### Minting -/

/-- The effect of a successful `insert`: slot `i`, free or new, is bound under the generation it
already carries, which is larger than that of every token minted for it before. -/
structure Binds (s : HandleRun α) (k : HandleKind) (p : Option α) (i : Nat) (g : UInt32)
    (token : Token) (t : HandleTable α) : Prop where
  token_eq : token = pack (UInt32.ofNat i) g
  slot_eq : t.slot = Function.update s.table.slot i ⟨g, true, k, p⟩
  lt_size : i < t.size
  lt_max : i < maxUint32
  size_le : s.table.size ≤ t.size
  size_of_ne : ∀ j, j < t.size → j ≠ i → j < s.table.size
  free_nodup : t.freeList.Nodup
  mem_free : ∀ j, j ∈ t.freeList ↔ j ∈ s.table.freeList ∧ j ≠ i
  gen : g.toNat = releases s.log i + 1
  idle : ¬ (i < s.table.size ∧ (s.table.slot i).live = true)
  newer : ∀ token', Issued s.log token' → (unpackSlot token').toNat = i →
    (unpackGeneration token').toNat < g.toNat

/-- Below the slot bound every `insert` binds a slot. -/
theorem Inv.insert_binds (hs : Inv s) (hsize : s.table.size < maxUint32) (k : HandleKind)
    (p : Option α) :
    ∃ i g, Binds s k p i g (s.table.insert k p).1 (s.table.insert k p).2 := by
  -- `insert` recycles the head of the free list, and grows the table only when it is empty
  cases hfree : s.table.freeList with
  | cons i rest =>
    have hmem : i ∈ s.table.freeList := by rw [hfree]; exact List.mem_cons_self
    have hlt := hs.free_lt i hmem
    have hlive := (hs.free_iff i hlt).mp hmem
    have hnd : (i :: rest).Nodup := hfree ▸ hs.free_nodup
    refine ⟨i, (s.table.slot i).generation, ?_⟩
    simp only [HandleTable.insert, hfree, HandleTable.bindSlot]
    refine
      { token_eq := rfl, slot_eq := rfl, lt_size := hlt, lt_max := hlt.trans hsize
        size_le := Nat.le_refl _, size_of_ne := fun j hj _ => hj
        free_nodup := (List.nodup_cons.mp hnd).2, mem_free := ?_, gen := hs.gen i hlt
        idle := fun h => by simp [hlive] at h, newer := ?_ }
    · intro j
      rw [hfree, List.mem_cons]
      exact ⟨fun hj => ⟨.inr hj, fun h => (List.nodup_cons.mp hnd).1 (h ▸ hj)⟩,
        fun h => h.1.resolve_left h.2⟩
    -- the recycled slot is not live, so its tokens are strictly older than its generation
    · rintro token' hiss rfl
      exact (hs.issued token' hiss).2.2.2 hlive
  | nil =>
    refine ⟨s.table.size, kMinGeneration, ?_⟩
    simp only [HandleTable.insert, hfree, if_neg (Nat.not_le.mpr hsize), HandleTable.bindSlot,
      Function.update_self]
    refine
      { token_eq := rfl, slot_eq := by simp, lt_size := Nat.lt_succ_self _, lt_max := hsize
        size_le := Nat.le_succ _, size_of_ne := fun j hj hne => by simp only at hj; omega
        free_nodup := by simp, mem_free := by simp [hfree]
        gen := by rw [hs.gen_none _ (Nat.le_refl _)]; rfl
        idle := fun h => Nat.lt_irrefl _ h.1, newer := ?_ }
    -- no token was minted for a slot that does not exist
    intro token' hiss heq
    exact absurd (heq ▸ (hs.issued token' hiss).1) (Nat.lt_irrefl _)

section Binds

variable {i : Nat} {g : UInt32} {t : HandleTable α}

/-- The token names the slot that is bound, and its generation. -/
theorem Binds.unpack (h : Binds s k p i g token t) :
    (unpackSlot token).toNat = i ∧ unpackGeneration token = g := by
  have hi : (UInt32.ofNat i).toNat = i := by
    rw [UInt32.toNat_ofNat']
    exact Nat.mod_eq_of_lt (h.lt_max.trans (by decide))
  rw [h.token_eq, unpackSlot_pack, unpackGeneration_pack]
  exact ⟨hi, rfl⟩

/-- A minted token is fresh and not null. -/
theorem Binds.fresh (h : Binds s k p i g token t) : token ≠ 0 ∧ ¬ Issued s.log token := by
  obtain ⟨hslot, hgen⟩ := h.unpack
  constructor
  -- the generation part is at least 1, so the token is not the null handle
  · refine token_ne_zero fun hz => ?_
    have hg := h.gen
    rw [← hgen, hz] at hg
    exact absurd hg (by simp)
  -- an equal token minted before would carry a smaller generation
  · intro hiss
    have hnew := h.newer token hiss hslot
    rw [hgen] at hnew
    exact Nat.lt_irrefl _ hnew

/-- Which tokens the slots show after the binding. -/
theorem Binds.valid_iff (h : Binds s k p i g token t) (token' : Token) (k' : HandleKind)
    (p' : Option α) :
    (t.Valid token' k' ∧ (t.slot (unpackSlot token').toNat).payload = p') ↔
      (token' = token ∧ k' = k ∧ p' = p) ∨
      (s.table.Valid token' k' ∧ (s.table.slot (unpackSlot token').toNat).payload = p') := by
  obtain ⟨hslot, hgen⟩ := h.unpack
  unfold HandleTable.Valid
  rw [h.slot_eq]
  by_cases heq : (unpackSlot token').toNat = i
  · -- the bound slot: it was not live, so only the new token is shown
    have hsame : (g = unpackGeneration token') ↔ token' = token := by
      constructor
      · intro hg
        exact token_ext (UInt32.toNat_inj.mp (heq.trans hslot.symm)) (hg.symm.trans hgen.symm)
      · rintro rfl; exact hgen.symm
    have hidle : ¬ ((unpackSlot token').toNat < s.table.size ∧
        (s.table.slot (unpackSlot token').toNat).live = true) := heq ▸ h.idle
    simp only [heq, Function.update_self, h.lt_size, true_and, hsame]
    rw [heq] at hidle
    constructor
    · rintro ⟨⟨ht, hk⟩, hp⟩; exact .inl ⟨ht, hk.symm, hp.symm⟩
    · rintro (⟨ht, hk, hp⟩ | ⟨⟨hlt, hl, -⟩, -⟩)
      · exact ⟨⟨ht, hk.symm⟩, hp.symm⟩
      · exact absurd ⟨hlt, hl⟩ hidle
  · -- another slot is unchanged, and the new token does not point to it
    have hne : token' ≠ token := by rintro rfl; exact heq hslot
    rw [Function.update_of_ne heq]
    have hlt : (unpackSlot token').toNat < t.size ↔ (unpackSlot token').toNat < s.table.size :=
      ⟨fun hj => h.size_of_ne _ hj heq, fun hj => hj.trans_le h.size_le⟩
    simp [hne, hlt]

/-- An insertion keeps the table and its history in agreement. -/
theorem Inv.insert (hs : Inv s) (h : Binds s k p i g token t) :
    Inv ⟨t, .inserted k p token :: s.log⟩ := by
  obtain ⟨hslot, hgen⟩ := h.unpack
  refine
    { free_nodup := h.free_nodup
      free_lt := fun j hj => (hs.free_lt j ((h.mem_free j).mp hj).1).trans_le h.size_le
      free_iff := ?_, gen := ?_, gen_none := ?_, live_iff := ?_, issued := ?_ }
  · intro j hj
    simp only [h.slot_eq, h.mem_free]
    by_cases hji : j = i
    · subst hji; simp
    · simp [hji, hs.free_iff j (h.size_of_ne j hj hji)]
  · intro j hj
    simp only [h.slot_eq, releases_inserted]
    by_cases hji : j = i
    · subst hji; simpa using h.gen
    · rw [Function.update_of_ne hji]; exact hs.gen j (h.size_of_ne j hj hji)
  · intro j hj
    rw [releases_inserted]
    exact hs.gen_none j (h.size_le.trans hj)
  · intro token' k' p'
    rw [liveAs_inserted h.fresh.2, h.valid_iff, hs.live_iff]
  -- `issued`: the bound slot is live again, so only `≤` is owed; its old tokens are older by
  -- `newer`, and a token of another slot keeps what it had
  · intro token' hiss
    simp only [h.slot_eq]
    by_cases heq : (unpackSlot token').toNat = i
    · simp only [heq, Function.update_self]
      rcases issued_inserted.mp hiss with rfl | hold
      · refine ⟨h.lt_size, fun hz => ?_, by rw [hgen], by simp⟩
        have hg := h.gen
        rw [← hgen, hz] at hg
        exact absurd hg (by simp)
      · have hold' := hs.issued token' hold
        exact ⟨h.lt_size, hold'.2.1, (h.newer token' hold heq).le, by simp⟩
    · have hold : Issued s.log token' := by
        rcases issued_inserted.mp hiss with rfl | hold
        · exact absurd hslot heq
        · exact hold
      rw [Function.update_of_ne heq]
      obtain ⟨hlt, hrest⟩ := hs.issued token' hold
      exact ⟨hlt.trans_le h.size_le, hrest⟩

end Binds

/-! ### Releasing -/

/-- Below the release bound the generation does not wrap. -/
theorem nextGeneration_toNat {g : UInt32} (h : g.toNat < maxUint32) :
    (HandleTable.nextGeneration g).toNat = g.toNat + 1 := by
  have hadd : (g + 1).toNat = g.toNat + 1 := by
    rw [UInt32.toNat_add]
    exact Nat.mod_eq_of_lt (Nat.succ_lt_succ h)
  unfold HandleTable.nextGeneration
  rw [if_neg, hadd]
  intro hz
  rw [hz] at hadd
  exact absurd hadd (by simp)

theorem Inv.release (hs : Inv s) (hv : s.table.Valid token k)
    (hbound : releases s.log (unpackSlot token).toNat + 1 < maxUint32) :
    Inv ⟨{ s.table with
        slot := Function.update s.table.slot (unpackSlot token).toNat
          { s.table.slot (unpackSlot token).toNat with
            live := false
            payload := none
            generation :=
              HandleTable.nextGeneration (s.table.slot (unpackSlot token).toNat).generation }
        freeList := (unpackSlot token).toNat :: s.table.freeList },
      .released token :: s.log⟩ := by
  obtain ⟨hlt, hlive, hgen, hkind⟩ := hv
  -- the release bound is used here and only here: it keeps the generation from wrapping
  have hnext := nextGeneration_toNat (g := (s.table.slot (unpackSlot token).toNat).generation)
    (by rw [hs.gen _ hlt]; exact hbound)
  -- a live slot is not on the free list, so pushing it keeps the list free of duplicates
  have hnot : (unpackSlot token).toNat ∉ s.table.freeList := by
    intro hm
    rw [(hs.free_iff _ hlt).mp hm] at hlive
    exact absurd hlive (by simp)
  refine
    { free_nodup := List.nodup_cons.mpr ⟨hnot, hs.free_nodup⟩, free_lt := ?_, free_iff := ?_,
      gen := ?_, gen_none := ?_, live_iff := ?_, issued := ?_ }
  · intro j hj
    rcases List.mem_cons.mp hj with rfl | hj
    · exact hlt
    · exact hs.free_lt j hj
  · intro j hj
    by_cases hji : j = (unpackSlot token).toNat
    · subst hji; simp
    · simp [hji, hs.free_iff j hj]
  · intro j hj
    rw [releases_released]
    by_cases hji : j = (unpackSlot token).toNat
    · subst hji
      simp only [Function.update_self, if_true, hnext, hs.gen _ hlt]
    · simp [Function.update_of_ne hji, Ne.symm hji, hs.gen j hj]
  · intro j hj
    have hne : (unpackSlot token).toNat ≠ j := by rintro rfl; exact absurd hlt (Nat.not_lt.mpr hj)
    rw [releases_released, if_neg hne, hs.gen_none j hj]
  · intro token' k' p'
    rw [liveAs_released, hs.live_iff]
    unfold HandleTable.Valid
    by_cases heq : (unpackSlot token').toNat = (unpackSlot token).toNat
    · -- a valid token on this slot is the released one
      simp only [heq, Function.update_self]
      constructor
      · rintro ⟨hne, ⟨-, -, hg, -⟩, -⟩
        exact absurd (token_ext (UInt32.toNat_inj.mp heq) (hg.symm.trans hgen)) hne
      · rintro ⟨⟨-, hl, -⟩, -⟩
        exact absurd hl (by simp)
    · have hne : token' ≠ token := fun h => heq (by rw [h])
      simp only [Function.update_of_ne heq]
      exact ⟨fun h => h.2, fun h => ⟨hne, h⟩⟩
  -- the slot is dead now, and its new generation exceeds every token minted for it
  · intro token' hiss
    obtain ⟨hlt', hz, hle, hstale⟩ := hs.issued token' (issued_released.mp hiss)
    by_cases heq : (unpackSlot token').toNat = (unpackSlot token).toNat
    · rw [heq] at hle
      simp only [heq, Function.update_self, hnext]
      exact ⟨hlt, hz, by omega, fun _ => by omega⟩
    · simp only [Function.update_of_ne heq]
      exact ⟨hlt', hz, hle, hstale⟩

/-! ### The run -/

/-- The bounds are about the past: they held before every step if they hold after it. -/
theorem within_of_step {op : HandleOp α} (h : s.step op = some s') (hw : s'.Within) :
    s.Within := by
  cases op with
  -- a table that is within its bounds was smaller before
  | insert kind payload =>
    obtain rfl := Option.some.inj h
    refine ⟨Nat.lt_of_le_of_lt ?_ hw.1, fun i => by simpa using hw.2 i⟩
    simp only [HandleTable.insert]
    split
    · exact Nat.le_refl _
    · split
      · exact Nat.le_refl _
      · exact Nat.le_succ _
  | lookup token kind =>
    obtain rfl := Option.some.inj h
    exact hw
  | release token kind =>
    obtain rfl := Option.some.inj h
    refine ⟨?_, fun i => Nat.lt_of_le_of_lt ?_ (hw.2 i)⟩
    · exact (s.table.release_size token kind).symm.trans_lt hw.1
    -- and no slot had been released more often
    · simp only
      split
      · rw [releases_released]; exact Nat.le_add_right _ _
      · exact Nat.le_refl _

/-- **Invariant preservation**, as long as the step stays within the bounds. -/
theorem Inv.step {op : HandleOp α} (hs : Inv s) (h : s.step op = some s') (hw : s'.Within) :
    Inv s' := by
  cases op with
  | insert kind payload =>
    obtain ⟨i, g, hb⟩ := hs.insert_binds (within_of_step h hw).1 kind payload
    obtain rfl := Option.some.inj h
    exact hs.insert hb
  | lookup token kind =>
    obtain rfl := Option.some.inj h
    exact hs
  | release token kind =>
    -- a null or invalid token leaves the run unchanged; a valid one releases the slot
    by_cases h0 : token = 0
    · simp only [HandleRun.step, HandleTable.release, if_pos h0, Option.some.injEq] at h
      exact h ▸ hs
    · by_cases hv : s.table.Valid token kind
      · simp only [HandleRun.step, HandleTable.release, if_neg h0, if_pos hv, if_true,
          Option.some.injEq] at h
        subst h
        refine hs.release hv ?_
        have hbound := hw.2 (unpackSlot token).toNat
        simpa only [releases_released, if_true] using hbound
      · simp only [HandleRun.step, HandleTable.release, if_neg h0, if_neg hv,
          Option.some.injEq] at h
        exact h ▸ hs

theorem inv_of_reachable (h : (system α).Reachable s) : s.Within → Inv s :=
  Lts.System.Reach.invariant (I := fun s => s.Within → Inv s)
    (fun _ hi _ => hi ▸ Inv.initial)
    (fun _ _ _ hI _ hstep hw => (hI (within_of_step hstep hw)).step hstep hw) h

/-- No token is minted twice. -/
def IssuedOnce (log : List (HandleEvent α)) : Prop :=
  ∀ token k p k' p', HandleEvent.inserted k p token ∈ log → .inserted k' p' token ∈ log →
    k = k' ∧ p = p'

/-- No token is minted twice within the generations. -/
theorem issuedOnce_of_reachable (h : (system α).Reachable s) : s.Within → IssuedOnce s.log := by
  refine Lts.System.Reach.invariant_of (J := fun s => s.Within → Inv s)
    (I := fun s => s.Within → IssuedOnce s.log) (fun _ hr => inv_of_reachable hr)
    (fun s hinit _ _ => ?_) (fun s op s' hinv _ honce _ hstep hw => ?_) h
  · rw [show s = ⟨.empty, []⟩ from hinit]
    exact fun _ _ _ _ _ hmem => absurd hmem List.not_mem_nil
  · have hbefore := within_of_step hstep hw
    have honce := honce hbefore
    cases op with
    -- only an insertion mints a token
    | lookup token kind =>
      obtain rfl := Option.some.inj hstep
      exact honce
    | release token kind =>
      obtain rfl := Option.some.inj hstep
      -- the event of a release is no insertion
      intro token' k p k' p' hmem hmem'
      simp only at hmem hmem'
      split at hmem
      · next hok =>
        rw [if_pos hok] at hmem'
        exact honce token' k p k' p' (by simpa using hmem) (by simpa using hmem')
      · next hok =>
        rw [if_neg hok] at hmem'
        exact honce token' k p k' p' hmem hmem'
    | insert kind payload =>
      obtain ⟨i, g, hb⟩ := (hinv hbefore).insert_binds hbefore.1 kind payload
      have hfresh := hb.fresh.2
      obtain rfl := Option.some.inj hstep
      intro token' k p k' p' hmem hmem'
      -- the new token is fresh, so it is not the token of an older insertion
      rcases List.mem_cons.mp hmem with heq | hmem
      · rcases List.mem_cons.mp hmem' with heq' | hmem'
        · cases heq
          cases heq'
          exact ⟨rfl, rfl⟩
        · cases heq
          exact absurd ⟨k', p', hmem'⟩ hfresh
      · rcases List.mem_cons.mp hmem' with heq' | hmem'
        · cases heq'
          exact absurd ⟨k, p, hmem⟩ hfresh
        · exact honce token' k p k' p' hmem hmem'

/-- What the calls of a table with the history `s.log` answer: the answers of a map from live
tokens to kind and payload. -/
structure Refines (s : HandleRun α) : Prop where
  lookup_ok : ∀ token k p, s.table.lookup token k = (.ok, p) ↔ LiveAs s.log token k p
  release_ok : ∀ token k, (s.table.release token k).1 = .ok ↔ ∃ p, LiveAs s.log token k p
  release_else : ∀ token k, (s.table.release token k).1 ≠ .ok →
    (s.table.release token k).2 = s.table
  insert_fresh : ∀ k p, (s.table.insert k p).1 ≠ 0 ∧ ¬ Issued s.log (s.table.insert k p).1
  null_token : ∀ k, s.table.lookup 0 k = (.nullHandle, none) ∧
    (s.table.release 0 k).1 = .nullHandle
  dead_token : ∀ token k, token ≠ 0 → (¬ ∃ p, LiveAs s.log token k p) →
    s.table.lookup token k = (.invalidHandle, none) ∧
    (s.table.release token k).1 = .invalidHandle

/-- **The handle table refines the token map**, for every sequence of calls with arbitrary tokens
and kinds, as long as fewer than `2 ^ 32 - 1` slots exist and no slot has been released
`2 ^ 32 - 1` times. -/
theorem table_refines (s : HandleRun α) (h : (system α).Reachable s) (hw : s.Within) :
    Refines s := by
  have hs := inv_of_reachable h hw
  -- a live token is exactly a valid one; validity needs a non-zero generation
  have hvalid : ∀ token k, (∃ p, LiveAs s.log token k p) ↔ s.table.Valid token k := by
    intro token k
    constructor
    · rintro ⟨p, hl⟩; exact ((hs.live_iff token k p).mp hl).1
    · intro hv; exact ⟨_, (hs.live_iff token k _).mpr ⟨hv, rfl⟩⟩
  have hne : ∀ token k, s.table.Valid token k → token ≠ 0 := by
    intro token k hv
    obtain ⟨p, hl⟩ := (hvalid token k).mpr hv
    exact token_ne_zero (hs.issued token hl.issued).2.1
  -- the three ways a call can go: null, valid, or neither
  have hrel : ∀ token k, token ≠ 0 → s.table.Valid token k →
      (s.table.release token k).1 = .ok := by
    intro token k h0 hv
    simp only [HandleTable.release, if_neg h0, if_pos hv]
  have hbad : ∀ token k, token ≠ 0 → ¬ s.table.Valid token k →
      s.table.lookup token k = (.invalidHandle, none) ∧
        s.table.release token k = (.invalidHandle, s.table) := by
    intro token k h0 hv
    simp only [HandleTable.lookup, HandleTable.release, if_neg h0, if_neg hv, and_self]
  refine
    { lookup_ok := ?_, release_ok := ?_, release_else := ?_, insert_fresh := ?_,
      null_token := fun _ => ⟨rfl, rfl⟩, dead_token := ?_ }
  · intro token k p
    rw [hs.live_iff]
    by_cases hv : s.table.Valid token k
    · simp [HandleTable.lookup, hne token k hv, hv]
    · by_cases h0 : token = 0
      · simp [HandleTable.lookup, h0, h0 ▸ hv]
      · simp [(hbad token k h0 hv).1, hv]
  · intro token k
    rw [hvalid]
    by_cases hv : s.table.Valid token k
    · simp [hrel token k (hne token k hv) hv, hv]
    · by_cases h0 : token = 0
      · subst h0; simp [HandleTable.release, hv]
      · simp [(hbad token k h0 hv).2, hv]
  · intro token k hfail
    by_cases h0 : token = 0
    · simp [HandleTable.release, h0]
    · by_cases hv : s.table.Valid token k
      · exact absurd (hrel token k h0 hv) hfail
      · rw [(hbad token k h0 hv).2]
  · intro k p
    obtain ⟨i, g, hb⟩ := hs.insert_binds hw.1 k p
    exact hb.fresh
  · intro token k h0 hdead
    rw [hvalid] at hdead
    have hb := hbad token k h0 hdead
    exact ⟨hb.1, by rw [hb.2]⟩

/-- A slot released and recycled: the stale token and a fabricated one are on the table's history
but not live. -/
def recycleOps : List (HandleOp Nat) :=
  [.insert .io (some 7), .release (pack 0 1) .io, .release (pack 0 1) .io,
    .lookup (pack 5 9) .view, .insert .view (some 8)]

theorem table_refines_recycleOps :
    ∃ s, (system Nat).replay (fun _ _ => True) ⟨.empty, []⟩ recycleOps = some s ∧
      s.table.lookup (pack 0 1) .io = (.invalidHandle, none) ∧
      s.table.lookup (pack 0 2) .view = (.ok, some 8) ∧ s.log.length = 3 ∧ Refines s := by
  refine ⟨_, rfl, rfl, rfl, rfl, table_refines _ (Lts.System.Reachable.of_replay recycleOps rfl rfl)
    ⟨by decide, fun i => ?_⟩⟩
  exact Nat.lt_of_le_of_lt List.countP_le_length (by decide)

end HandleRun

end Amio
