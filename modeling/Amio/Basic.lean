import Mathlib.Algebra.Order.Ring.Int
import Mathlib.Data.Fintype.Basic

/-!
# The public data types of the C surface

The error enumeration of `amio_errors.h` and the descriptors of `amio_types.h` that the modelled
functions read: element types, shapes and bounding boxes. The fixed arrays of `AMIO_MAX_RANK`
entries are functions on `Fin maxRank`; `rank` keeps its sign, because nothing but the explicit
checks keeps it inside the array.
-/

namespace Amio

/-- `amio_err_e`, in the order of the header. -/
inductive AmioErr
  | ok
  | nullHandle
  | invalidHandle
  | manifestNotFound
  | manifestInvalid
  | alreadyInitialized
  | finalizeTimeout
  | stagingBackpressure
  | invalidBinding
  | commSplitFailed
  | threadingUnsupported
  | unknownBackend
  | lossyCodecForbidden
  | viewsOutstanding
  | queueFull
  | timeout
  | backendFailure
  | invalidInput
  deriving DecidableEq, Repr

/-- `AMIO_MAX_RANK`. -/
abbrev maxRank : Nat := 7

/-- `amio_dtype_t`. -/
inductive Dtype
  | f32 | f64 | i8 | i16 | i32 | i64 | u8 | u16 | u32 | u64
  deriving DecidableEq, Repr

/-- `element_size`. A tag outside the enumeration has no value of `Dtype`; callers that receive
the raw tag carry it as an `Option Dtype`. -/
def Dtype.elementSize : Dtype → Nat
  | .f32 => 4
  | .f64 => 8
  | .i8 => 1
  | .i16 => 2
  | .i32 => 4
  | .i64 => 8
  | .u8 => 1
  | .u16 => 2
  | .u32 => 4
  | .u64 => 8

/-- `element_size` on a raw tag: `0` for an unrecognised one. -/
def elementSize (dtype : Option Dtype) : Nat :=
  (dtype.map Dtype.elementSize).getD 0

/-- `amio_shape_t`. -/
structure Shape where
  rank : Int
  extents : Fin maxRank → Int
  strides : Fin maxRank → Int
  deriving DecidableEq

/-- `amio_bbox_t`; also the layout of the driver-side `BoundingBox`. -/
structure Bbox where
  rank : Int
  offsets : Fin maxRank → Int
  extents : Fin maxRank → Int
  strides : Fin maxRank → Int
  deriving DecidableEq

/-- The dimensions a loop `for (d = 0; d < rank && d < AMIO_MAX_RANK; ++d)` visits. -/
def dims (rank : Int) : List (Fin maxRank) :=
  (List.finRange maxRank).filter fun d => (d : Int) < rank

/-- `VarMeta`. The read path leaves `variable_id` at its default. -/
structure VarMeta where
  datasetId : UInt64
  variableId : UInt64 := 0
  name : List UInt8
  dtype : Option Dtype
  shape : Shape
  timestep : Int := -1
  deriving DecidableEq

/-- A `std::size_t` or `std::uint64_t` value: arithmetic is modulo `2 ^ 64`. -/
def u64 (n : Nat) : Nat := n % 2 ^ 64

/-- An `std::int64_t` value: arithmetic is two's complement. -/
def i64 (n : Int) : Int := n.bmod (2 ^ 64)

/-- What an `std::int64_t` can hold. -/
def IsInt64 (n : Int) : Prop := -2 ^ 63 ≤ n ∧ n < 2 ^ 63

instance (n : Int) : Decidable (IsInt64 n) := inferInstanceAs (Decidable (_ ∧ _))

theorem i64_of_isInt64 {n : Int} (h : IsInt64 n) : i64 n = n := by
  obtain ⟨hlo, hhi⟩ := h
  refine Int.bmod_eq_of_le ?_ ?_ <;> omega

end Amio
