import Amio.Basic
import Mathlib.Data.Nat.Bitwise

/-!
# The handle table

Model of `c_boundary/handle_table.{hpp,cpp}`: a slab of generation-stamped slots that mints 64-bit
tokens, the slot index in the high half and the slot's generation in the low half. Tokens and
generations are machine words, so that the wrap of the generation in `release` and the packing are
the code's own. The vector `slots_` is its length `size` and its elements `slot`; `free_list_` is a
stack, its back at the head of the list. A payload is a pointer, `none` being `nullptr`.

Every operation runs under `mu_` and is one step. `lookup` is modelled with a valid `out_payload`
pointer, which all callers pass.
-/

namespace Amio

/-- `HandleKind`. -/
inductive HandleKind
  | core
  | dataset
  | io
  | view
  deriving DecidableEq, Repr

/-- `HandleTable::Token`. -/
abbrev Token := UInt64

/-- `HandleTable::pack`. -/
def pack (slot generation : UInt32) : Token := (slot.toUInt64 <<< 32) ||| generation.toUInt64

/-- `HandleTable::unpack_slot`. -/
def unpackSlot (t : Token) : UInt32 := (t >>> 32).toUInt32

/-- `HandleTable::unpack_generation`. -/
def unpackGeneration (t : Token) : UInt32 := (t &&& 0xFFFFFFFF).toUInt32

/-- `HandleTable::Slot`. -/
structure Slot (α : Type) where
  generation : UInt32
  live : Bool
  kind : HandleKind
  payload : Option α

/-- A default-constructed slot; generation `0` means "never used". -/
def Slot.empty {α : Type} : Slot α := ⟨0, false, .core, none⟩

/-- `HandleTable`. -/
structure HandleTable (α : Type) where
  size : Nat
  slot : Nat → Slot α
  freeList : List Nat

/-- `kMinGeneration`. -/
abbrev kMinGeneration : UInt32 := 1

/-- `std::numeric_limits<std::uint32_t>::max()`. -/
abbrev maxUint32 : Nat := 2 ^ 32 - 1

namespace HandleTable

variable {α : Type}

/-- The table before the first call. -/
def empty : HandleTable α := ⟨0, fun _ => .empty, []⟩

variable (t : HandleTable α)

/-- The end of `insert`: flip the slot live, store kind and payload, and mint the token from the
generation the slot already holds. -/
def bindSlot (i : Nat) (kind : HandleKind) (payload : Option α) : Token × HandleTable α :=
  (pack (UInt32.ofNat i) (t.slot i).generation,
    { t with
      slot := Function.update t.slot i
        { t.slot i with live := true, kind := kind, payload := payload } })

/-- `insert`: recycle the slot released last, or append one; token `0` when the slot index space
is exhausted. -/
def insert (kind : HandleKind) (payload : Option α) : Token × HandleTable α :=
  match t.freeList with
  | i :: rest => { t with freeList := rest }.bindSlot i kind payload
  | [] =>
    -- no index is left that fits the upper half of a token
    if maxUint32 ≤ t.size then (0, t)
    else
      { t with
        size := t.size + 1
        slot := Function.update t.slot t.size
          { (Slot.empty : Slot α) with generation := kMinGeneration } }.bindSlot t.size kind payload

/-- The check shared by `lookup` and `release`: the slot exists, is live, and carries the token's
generation and the expected kind. -/
def Valid (token : Token) (expected : HandleKind) : Prop :=
  (unpackSlot token).toNat < t.size ∧
    (t.slot (unpackSlot token).toNat).live = true ∧
    (t.slot (unpackSlot token).toNat).generation = unpackGeneration token ∧
    (t.slot (unpackSlot token).toNat).kind = expected

instance (token : Token) (expected : HandleKind) : Decidable (t.Valid token expected) :=
  inferInstanceAs (Decidable (_ ∧ _ ∧ _ ∧ _))

/-- `lookup`: the status and `*out_payload`. -/
def lookup (token : Token) (expected : HandleKind) : AmioErr × Option α :=
  if token = 0 then (.nullHandle, none)
  else if t.Valid token expected then (.ok, (t.slot (unpackSlot token).toNat).payload)
  else (.invalidHandle, none)

/-- The generation after a release: incremented, skipping `0` on the wrap. -/
def nextGeneration (g : UInt32) : UInt32 :=
  if g + 1 = 0 then kMinGeneration else g + 1

/-- `release`. -/
def release (token : Token) (expected : HandleKind) : AmioErr × HandleTable α :=
  if token = 0 then (.nullHandle, t)
  else if t.Valid token expected then
    let i := (unpackSlot token).toNat
    (.ok, { t with
      slot := Function.update t.slot i
        { t.slot i with
          live := false
          payload := none
          -- so that the token of the slot is stale from now on
          generation := nextGeneration (t.slot i).generation }
      freeList := i :: t.freeList })
  else (.invalidHandle, t)

/-- A release gives no slot back. -/
theorem release_size (token : Token) (k : HandleKind) :
    (t.release token k).2.size = t.size := by
  unfold release
  split
  · rfl
  · split <;> rfl

/-- `size_for_test`: the number of live slots. -/
def liveCount : Nat := t.size - t.freeList.length

end HandleTable

/-! ### The token layout -/

/-- A token is its slot and its generation, side by side. -/
theorem pack_toNat (s g : UInt32) : (pack s g).toNat = s.toNat * 2 ^ 32 + g.toNat := by
  have hs := s.toNat_lt
  have hg := g.toNat_lt
  -- the slot fits below the top, so the shift loses nothing
  have hmod : s.toNat <<< 32 % 2 ^ 64 = s.toNat <<< 32 := by
    rw [Nat.shiftLeft_eq]; exact Nat.mod_eq_of_lt (by omega)
  simp only [pack, UInt64.toNat_or, UInt64.toNat_shiftLeft, UInt32.toNat_toUInt64]
  change (s.toNat <<< 32 % 2 ^ 64) ||| g.toNat = _
  rw [hmod, Nat.shiftLeft_eq, Nat.mul_comm, Nat.two_pow_add_eq_or_of_lt hg]

/-- The slot is the upper half. -/
theorem unpackSlot_toNat (t : Token) : (unpackSlot t).toNat = t.toNat / 2 ^ 32 := by
  have ht := t.toNat_lt
  simp only [unpackSlot, UInt64.toNat_toUInt32, UInt64.toNat_shiftRight]
  change t.toNat >>> 32 % 2 ^ 32 = _
  rw [Nat.shiftRight_eq_div_pow]
  omega

/-- The generation is the lower half. -/
theorem unpackGeneration_toNat (t : Token) :
    (unpackGeneration t).toNat = t.toNat % 2 ^ 32 := by
  simp only [unpackGeneration, UInt64.toNat_toUInt32, UInt64.toNat_and]
  change (t.toNat &&& (2 ^ 32 - 1)) % 2 ^ 32 = _
  rw [Nat.and_two_pow_sub_one_eq_mod]
  omega

@[simp] theorem unpackSlot_pack (s g : UInt32) : unpackSlot (pack s g) = s := by
  have hg := g.toNat_lt
  refine UInt32.toNat_inj.mp ?_
  rw [unpackSlot_toNat, pack_toNat]
  omega

@[simp] theorem unpackGeneration_pack (s g : UInt32) : unpackGeneration (pack s g) = g := by
  have hg := g.toNat_lt
  refine UInt32.toNat_inj.mp ?_
  rw [unpackGeneration_toNat, pack_toNat]
  omega

/-- A token is determined by its two halves. -/
theorem token_ext {t t' : Token} (hs : unpackSlot t = unpackSlot t')
    (hg : unpackGeneration t = unpackGeneration t') : t = t' := by
  have hs' := congrArg UInt32.toNat hs
  have hg' := congrArg UInt32.toNat hg
  rw [unpackSlot_toNat, unpackSlot_toNat] at hs'
  rw [unpackGeneration_toNat, unpackGeneration_toNat] at hg'
  -- quotient and remainder by `2 ^ 32` determine the number
  refine UInt64.toNat_inj.mp ?_
  omega

/-- A token with a non-zero generation is not the null handle. -/
theorem token_ne_zero {t : Token} (h : unpackGeneration t ≠ 0) : t ≠ 0 := by
  rintro rfl
  exact h rfl

end Amio
