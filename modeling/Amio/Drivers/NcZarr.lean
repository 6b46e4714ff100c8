import Amio.Drivers.NetCdfSlices
import Amio.Drivers.OpenState

/-!
# The NCZarr fallback

`drivers/zarr/zarr_nczarr_fallback.cpp`, the Zarr driver of a build without TensorStore. It goes
through netCDF as the NetCDF driver does, but a dimension is never shared: the dimensions of a
variable are named after it, so that what one variable is written with does not depend on the
others. A write goes to the origin whatever timestep it is for, and a read looks at the timestep as
little.

A write that fails leaves behind what it had done: dimensions, a variable without data, or one with
any part of the block. The next write to the name finds them and goes on from there, which is right
when the name keeps its shape and type, whatever the other variables do. So in every sequence of
writes, some of which fail for whatever reason the library has, the store gives back of such a name
the last write, if it returned (`last_write_read_back`), and no failure is in the way of a later
write (`recovers`).

What the host gets of it is another matter: this build has no `describe_variable`, and the reads of
the C boundary need one.
-/

namespace Amio.NcZarr

open RowMajor
open NetCdf (NcFile NcVar NcDim NcCall Write Stored Consistent Elements text dtypeToNcType padded
  selection selectionSteps selected element)

/-! ### The driver -/

/-- netCDF, with what it answers to the calls for a file (`creates`, with the global attributes, and
`opens`), and to those that follow the definition of a variable (`setsUp`: its attributes, its
chunks, its filter, and the end of the definitions), and with what it leaves of the cells of a
variable when a block cannot be put (`leaves`). -/
structure Library extends NetCdf.Library where
  creates : String → Bool
  opens : String → Bool
  setsUp : NcFile → List UInt8 → Option (List Nat) → String → Bool
  leaves : NcFile → List UInt8 → List Nat → List UInt8

/-- `dim_name`. -/
def dimName (name : List UInt8) (d : Nat) : List UInt8 := name ++ (text "_dim" ++ text (toString d))

/-- `chunk_shape` of a configuration that was parsed. -/
def chunkShape (m : Conf) : List Int32 :=
  match m.getIntList "chunk_shape" with
  | .ok chunks => chunks
  | .error _ => []

/-- `codec` of a configuration that was parsed. -/
def codec (m : Conf) : String :=
  match m.getString "codec" with
  | .ok codec => codec
  | .error _ => ""

/-- The chunks of a new variable: those of the configuration, and the extents where it has none. -/
def chunksOf (chunks : List Int32) (extents : List Nat) : Option (List Nat) :=
  if chunks = [] then none
  else some (extents.mapIdx fun d e =>
    match chunks[d]? with
    | some c => (c.toInt % 2 ^ 64).toNat
    | none => e)

/-- The driver with its open store. `disk` has the stores by their URI. -/
structure Driver where
  isOpen : Bool := false
  isWriteMode : Bool := false
  uri : String := ""
  chunkShape : List Int32 := []
  codec : String := ""
  file : NcFile := .empty
  disk : String → Option NcFile := fun _ => none

section Definitions

variable (lib : Library)

/-- One turn of the loop over the dimensions of a new variable. -/
def defineDim (name : List UInt8) (f : NcFile) (d len : Nat) : Option (NcFile × Nat) :=
  match f.inqDimid (dimName name d) with
  -- a dimension of the name is taken as it is
  | some id => some (f, id)
  | none => f.defDim lib.toLibrary (dimName name d) len

/-- The loop, from `d` on. What was defined before a call fails stays. -/
def defineDims (name : List UInt8) : NcFile → Nat → List Nat → Option (List Nat) × NcFile
  | f, _, [] => (some [], f)
  | f, d, len :: lens =>
    match defineDim lib name f d len with
    -- the dimensions before it stay
    | none => (none, f)
    | some (f', id) =>
      let (ids, f'') := defineDims name f' (d + 1) lens
      (ids.map (id :: ·), f'')

/-- The definition of a variable, up to the first call that fails. -/
def define (chunks : List Int32) (codec : String) (f : NcFile) (m : VarMeta) :
    Option NcVar × NcFile :=
  if lib.allows f (.define m.name) then
    match defineDims lib m.name f 0 m.shape.extentList with
    | (none, f') => (none, f')
    | (some ids, f') =>
      match m.dtype with
      | none => (none, f')
      | some dtype =>
        match f'.defVar lib.toLibrary m.name (dtypeToNcType dtype) ids fun _ => none with
        | none => (none, f')
        | some (g, v) =>
          -- chunks and codec are set on a variable that is there already
          if lib.setsUp g m.name (chunksOf chunks m.shape.extentList) codec then (some v, g)
          else (none, g)
  else (none, f)

/-- The file with something else in the cells of a variable. -/
def spoil (f : NcFile) (name : List UInt8) (v : NcVar) (content : List Nat → List UInt8) :
    NcFile :=
  { f with vars := Function.update f.vars name (some { v with content := content }) }

namespace Driver

variable (d : Driver)

/-- `open_write`; `none` when it throws. -/
def openWrite (m : AttrConf) : Option Driver :=
  if d.isOpen then none
  else
    match writeSettings m with
    | .error _ => none
    | .ok x =>
      if lib.creates x.path then
        some
          { d with
            isOpen := true, isWriteMode := true, uri := x.path
            chunkShape := NcZarr.chunkShape m.toConf, codec := NcZarr.codec m.toConf
            file := .empty }
      else none

/-- `open_read`. -/
def openRead (m : AttrConf) : Option Driver :=
  if d.isOpen then none
  else
    match readSettings m with
    | .error _ => none
    | .ok x =>
      match d.disk x.path with
      -- there is no store under the URI
      | none => none
      | some f =>
        if lib.opens x.path then
          some
            { d with
              isOpen := true, isWriteMode := false, uri := x.path
              chunkShape := NcZarr.chunkShape m.toConf, codec := NcZarr.codec m.toConf
              file := f }
        else none

/-- `close`, when the library closes the file: what is written is in the store. -/
def close : Driver :=
  if d.isOpen then
    { d with
      isOpen := false, isWriteMode := false
      disk := if d.isWriteMode then Function.update d.disk d.uri (some d.file) else d.disk }
  else d

/-- The block is put at the origin of variable `v`. A `nc_put_vara` that fails may have put any part
of it, or anything else. -/
def put (v : NcVar) (src : List UInt8) (m : VarMeta) : Bool × Driver :=
  match d.file.putVara lib.toLibrary m.name v m.shape.extentList src with
  | some f => (true, { d with file := f })
  | none => (false, { d with file := spoil d.file m.name v (lib.leaves d.file m.name) })

/-- `write`, and whether it returns. -/
def write (src : List UInt8) (m : VarMeta) : Bool × Driver :=
  if d.isOpen = true ∧ d.isWriteMode = true then
    match d.file.vars m.name with
    | some v => d.put lib v src m
    | none =>
      match define lib d.chunkShape d.codec d.file m with
      | (some v, f) => { d with file := f }.put lib v src m
      -- a definition that fails leaves what it has made
      | (none, f) => (false, { d with file := f })
  else (false, d)

/-- `dtype_size`. -/
def dtypeSize (dtype : Option Dtype) : Nat := if elementSize dtype = 0 then 4 else elementSize dtype

/-- `read` into a buffer of the given capacity. -/
def read (capacity : Nat) (m : VarMeta) (_timestep : Int) (bbox : Option Bbox) :
    Option (List UInt8 × Nat) :=
  if d.isOpen = true ∧ d.isWriteMode = false then
    (d.file.vars m.name).bind fun v =>
      -- the shape is the caller's; the timestep is not looked at
      let rank := m.shape.extentList.length
      let sel := selection m.shape bbox
      (padded rank 0 sel.1).bind fun start =>
        (padded rank 0 sel.2.1).bind fun count =>
          (padded rank 1 sel.2.2).bind fun steps =>
            let totalBytes := u64 (count.foldl (fun n e => u64 (n * e)) 1 * dtypeSize m.dtype)
            if capacity < totalBytes then none
            else (d.file.getVars v start count steps).map fun out => (out, totalBytes)
  else none

/-- `describe_variable` of this build. -/
def describeVariable (_name : List UInt8) : Option VariableInfo := none

end Driver

/-- A sequence of writes, each with what the library answers to it: whether each of them returns,
and the driver they leave. -/
def Driver.writeAll : Driver → List (Library × Write) → List (Write × Bool) × Driver
  | d, [] => ([], d)
  | d, (lib, w) :: calls =>
    let (returns, d') := d.write lib w.src w.varMeta
    let (log, d'') := d'.writeAll calls
    ((w, returns) :: log, d'')

/-- The last write of a name, if it returned. -/
def settled (log : List (Write × Bool)) (name : List UInt8) : Option Write :=
  (log.reverse.find? fun p => p.1.name = name).bind fun p => if p.2 then some p.1 else none

end Definitions

/-! ### Names -/

section Names

variable {name name' : List UInt8} {k k' : Nat}

/-- **A dimension is named after one axis of one variable.** -/
theorem dimName_inj (hk : k < maxRank) (hk' : k' < maxRank)
    (h : dimName name k = dimName name' k') : name = name' ∧ k = k' := by
  have hlen : (text "_dim" ++ text (toString k)).length =
      (text "_dim" ++ text (toString k')).length := by
    rw [NetCdf.length_suffix hk, NetCdf.length_suffix hk']
  obtain ⟨hname, hsuffix⟩ := List.append_inj' h hlen
  exact ⟨hname, NetCdf.suffix_inj hk hk' hsuffix⟩

end Names

/-! ### What a store keeps -/

/-- The writes of `name` keep its type and its shape. -/
def Agree (name : List UInt8) (asked : List Write) : Prop :=
  Consistent (asked.filter fun w => w.name = name)

/-- Variable `v` is defined as the write asks for it. -/
structure Formed (f : NcFile) (w : Write) (v : NcVar) : Prop where
  type : ∃ dtype, w.varMeta.dtype = some dtype ∧ v.type = dtypeToNcType dtype
  lens : v.dimids.map f.inqDimlen = w.extents
  ids : ∀ id ∈ v.dimids, id < f.dims.length

/-- Every dimension is that of an axis of a write that was asked for, and has a fixed length. -/
def Named (f : NcFile) (asked : List Write) : Prop :=
  ∀ D ∈ f.dims, D.unlimited = false ∧
    ∃ w ∈ asked, ∃ k, w.extents[k]? = some D.len ∧ D.name = dimName w.name k

/-- The invariant of the store, for one name: the writes that were asked for, and what came of
them. -/
structure Kept (name : List UInt8) (f : NcFile) (asked : List Write) (log : List (Write × Bool)) :
    Prop where
  named : Named f asked
  formed : ∀ v, f.vars name = some v → ∃ w ∈ asked, w.name = name ∧ Formed f w v
  stored : ∀ w, settled log name = some w → ∃ v, f.vars name = some v ∧ Stored f w v

variable {lib : Library} {f f' g : NcFile} {asked asked' : List Write} {w w' : Write}
  {log log' : List (Write × Bool)} {name : List UInt8} {v : NcVar} {returns : Bool}

/-- Two writes of the name agree. -/
theorem Agree.of_mem (h : Agree name asked) (hw : w ∈ asked) (hw' : w' ∈ asked)
    (hname : w.name = name) (hname' : w'.name = name) :
    w.varMeta.dtype = w'.varMeta.dtype ∧ w.extents = w'.extents :=
  h w (List.mem_filter.mpr ⟨hw, decide_eq_true hname⟩) w'
    (List.mem_filter.mpr ⟨hw', decide_eq_true hname'⟩) (hname.trans hname'.symm)

/-- What is settled after one more write. -/
theorem settled_append (log : List (Write × Bool)) (w : Write) (returns : Bool)
    (name : List UInt8) :
    settled (log ++ [(w, returns)]) name =
      if w.name = name then (if returns then some w else none) else settled log name := by
  rw [settled, List.reverse_append, List.reverse_singleton, List.singleton_append,
    List.find?_cons]
  split
  · next h => rw [if_pos (of_decide_eq_true h), Option.bind_some]
  · next h => rw [if_neg (of_decide_eq_false h), settled]

/-- A settled write has returned. -/
theorem mem_of_settled (h : settled log name = some w) : (w, true) ∈ log := by
  obtain ⟨⟨w', returned⟩, hfind, hsome⟩ := Option.bind_eq_some_iff.mp h
  have hmem := List.mem_reverse.mp (List.mem_of_find?_eq_some hfind)
  split at hsome
  · next hreturned =>
    obtain rfl : w' = w := Option.some.inj hsome
    obtain rfl : returned = true := hreturned
    exact hmem
  · cases hsome

/-- The writes so far agree. -/
theorem Agree.of_append (h : Agree name (asked ++ asked')) : Agree name asked := by
  intro w hw w' hw' hsame
  rw [Agree, List.filter_append] at h
  exact h w (List.mem_append_left _ hw) w' (List.mem_append_left _ hw') hsame

theorem Kept.empty : Kept name .empty [] [] := ⟨nofun, nofun, nofun⟩

/-- What is formed does not depend on dimensions that come later. -/
theorem Formed.extends {added : List NcDim} (h : Formed f w v) (hdims : g.dims = f.dims ++ added) :
    Formed g w v where
  type := h.type
  lens := by
    rw [← h.lens]
    refine List.map_congr_left fun id hid => ?_
    rw [NcFile.inqDimlen, NcFile.inqDimlen, hdims, List.getElem?_append_left (h.ids id hid)]
  ids id hid := by
    have hlt := h.ids id hid
    rw [hdims, List.length_append]
    omega

/-- A variable is formed for every write that agrees on its type and extents. -/
theorem Formed.agree (h : Formed f w v)
    (hsame : w.varMeta.dtype = w'.varMeta.dtype ∧ w.extents = w'.extents) : Formed f w' v where
  type := hsame.1 ▸ h.type
  lens := hsame.2 ▸ h.lens
  ids := h.ids

/-- Further writes may be asked for. -/
theorem Named.more (h : Named f asked) (hsub : asked ⊆ asked') : Named f asked' := by
  intro D hD
  obtain ⟨hfixed, w, hw, k, hlen, hname⟩ := h D hD
  exact ⟨hfixed, w, hsub hw, k, hlen, hname⟩

/-- What is kept of a name does not depend on the other variables, nor on dimensions that come
later. -/
theorem Kept.frame {added : List NcDim} (h : Kept name f asked log) (hnamed : Named g asked')
    (hsub : asked ⊆ asked') (hdims : g.dims = f.dims ++ added)
    (hvar : g.vars name = f.vars name) (hlog : settled log' name = settled log name) :
    Kept name g asked' log' where
  named := hnamed
  formed v hv := by
    obtain ⟨w, hw, hname, hformed⟩ := h.formed v (hvar ▸ hv)
    exact ⟨w, hsub hw, hname, hformed.extends hdims⟩
  stored w hw := by
    obtain ⟨v, hv, hstored⟩ := h.stored w (hlog ▸ hw)
    refine ⟨v, hvar.trans hv, hstored.extends fun id hid => ⟨?_, ?_⟩⟩
    · rw [hdims, List.length_append]
      omega
    · rw [NcFile.inqDimlen, hdims, List.getElem?_append_left hid]
      rfl

/-- Further writes may be asked for. -/
theorem Kept.more (h : Kept name f asked log) (hsub : asked ⊆ asked') :
    Kept name f asked' log :=
  h.frame (h.named.more hsub) hsub (List.append_nil _).symm rfl rfl

/-- An axis of a valid write. -/
theorem lt_maxRank {k e : Nat} (hvalid : w.Valid) (h : w.extents[k]? = some e) : k < maxRank := by
  obtain ⟨n, -, -, hn, hlen⟩ := hvalid.exists_rank
  have hlt := (List.getElem?_eq_some_iff.mp h).1
  omega

/-! ### One write -/

/-- What a write of `name` does to the rest of the store: it adds dimensions that were asked for,
and leaves the other variables alone. -/
structure Beside (name : List UInt8) (asked : List Write) (f g : NcFile) : Prop where
  dims : ∃ added, g.dims = f.dims ++ added
  named : Named g asked
  others : ∀ name', name' ≠ name → g.vars name' = f.vars name'

theorem Beside.refl (h : Named f asked) : Beside name asked f f :=
  ⟨⟨[], (List.append_nil _).symm⟩, h, fun _ _ => rfl⟩

theorem Beside.trans {g' : NcFile} (h : Beside name asked f g) (h' : Beside name asked g g') :
    Beside name asked f g' where
  dims := by
    obtain ⟨added, hdims⟩ := h.dims
    obtain ⟨added', hdims'⟩ := h'.dims
    exact ⟨added ++ added', by rw [hdims', hdims, List.append_assoc]⟩
  named := h'.named
  others name' hne := (h'.others name' hne).trans (h.others name' hne)

/-- A new variable of dimensions that are there. -/
theorem Named.defVar (lib : Library) (h : Named f asked) {dtype : Dtype} {ids : List Nat}
    {attributes : List UInt8 → Option NetCdf.AttrValue} (hdtype : w.varMeta.dtype = some dtype)
    (hids : ∀ id ∈ ids, id < f.dims.length)
    (hvar : f.defVar lib.toLibrary w.name (dtypeToNcType dtype) ids attributes = some (g, v)) :
    Beside w.name asked f g ∧ g.vars w.name = some v ∧
      (ids.map f.inqDimlen = w.extents → Formed g w v) := by
  -- the variable is there under its name, with no cells written
  have hself : g.vars w.name = some v := by
    unfold NcFile.defVar at hvar
    split at hvar
    · obtain ⟨rfl, rfl⟩ := Prod.mk.inj (Option.some.inj hvar)
      exact Function.update_self ..
    · cases hvar
  obtain ⟨hdims, hvars, htype, rfl⟩ := NetCdf.defVar_spec hvar
  -- a variable adds no dimension
  have hlen : g.inqDimlen = f.inqDimlen := by
    funext id
    rw [NcFile.inqDimlen, hdims]
    rfl
  refine ⟨⟨⟨[], by rw [hdims, List.append_nil]⟩, fun D hD => h D (hdims ▸ hD), hvars⟩, hself,
    fun hlens => ⟨⟨dtype, hdtype, htype⟩, hlen ▸ hlens, by rwa [hdims]⟩⟩

section Definition

variable (lib) (hvalid : ∀ w ∈ asked, w.Valid) (hw : w ∈ asked)
include hvalid hw

/-- **The dimension of an axis has the length of the extent**, also when a write that failed left it
behind. -/
theorem Named.defineDim (h : Named f asked) {d len id : Nat} (hlen : w.extents[d]? = some len)
    (hturn : NcZarr.defineDim lib w.name f d len = some (f', id)) :
    (∃ added, f.Extends f' added) ∧ Named f' asked ∧ id < f'.dims.length ∧
      (Agree w.name asked → f'.inqDimlen id = len) := by
  unfold NcZarr.defineDim at hturn
  split at hturn
  · next i hfound =>
    obtain ⟨rfl, rfl⟩ := Prod.mk.inj (Option.some.inj hturn)
    obtain ⟨hlt, hname, -⟩ := List.findIdx?_eq_some_iff_getElem.mp hfound
    refine ⟨⟨[], .refl f⟩, h, hlt, fun hagree => ?_⟩
    -- a dimension of this name was made for this axis of a write of the same name
    obtain ⟨-, w', hw', k, hk, hname'⟩ := h _ (List.getElem_mem hlt)
    obtain ⟨hsame, rfl⟩ := dimName_inj (lt_maxRank (hvalid w hw) hlen)
      (lt_maxRank (hvalid w' hw') hk) ((of_decide_eq_true hname).symm.trans hname')
    rw [← (hagree.of_mem hw hw' rfl hsame.symm).2, hlen] at hk
    rw [NcFile.inqDimlen, List.getElem?_eq_getElem hlt]
    exact (Option.some.inj hk).symm
  · obtain ⟨rfl, hext⟩ := NcFile.defDim_spec hturn
    refine ⟨⟨_, hext⟩, fun D hD => ?_, hext.last.1, fun _ => ?_⟩
    · rw [hext.1] at hD
      rcases List.mem_append.mp hD with hold | hnew
      · exact h D hold
      · obtain rfl := List.mem_singleton.mp hnew
        -- no extent is zero, which is the length of an unlimited dimension
        have hpos := (hvalid w hw).pos len (List.mem_of_getElem? hlen)
        exact ⟨decide_eq_false hpos.ne', w, hw, d, hlen, rfl⟩
    · rw [NcFile.inqDimlen, hext.last.2]
      rfl

/-- The loop over the dimensions: whether it comes to its end or not, it adds dimensions of the
variable, and those it comes out with have the lengths that were asked for. -/
theorem Named.defineDims (h : Named f asked) {d : Nat} {lens : List Nat}
    (hlens : w.extents.drop d = lens) :
    (∃ added, f.Extends (NcZarr.defineDims lib w.name f d lens).2 added) ∧
      Named (NcZarr.defineDims lib w.name f d lens).2 asked ∧
      ∀ ids, (NcZarr.defineDims lib w.name f d lens).1 = some ids →
        (∀ id ∈ ids, id < (NcZarr.defineDims lib w.name f d lens).2.dims.length) ∧
        (Agree w.name asked →
          ids.map (NcZarr.defineDims lib w.name f d lens).2.inqDimlen = lens) := by
  induction lens generalizing f d with
  | nil =>
    refine ⟨⟨[], .refl f⟩, h, fun ids hids => ?_⟩
    obtain rfl := Option.some.inj hids
    exact ⟨nofun, fun _ => rfl⟩
  | cons len lens ih =>
    have hlen : w.extents[d]? = some len := by
      rw [← List.head?_drop, hlens]
      rfl
    have hlens' : w.extents.drop (d + 1) = lens := by
      rw [← List.tail_drop, hlens]
      rfl
    rw [NcZarr.defineDims]
    cases hturn : NcZarr.defineDim lib w.name f d len with
    -- an axis that fails ends the definition, and what was made stays
    | none => exact ⟨⟨[], .refl f⟩, h, nofun⟩
    | some p =>
      obtain ⟨f₁, id⟩ := p
      obtain ⟨⟨added₁, hext₁⟩, hnamed₁, hid, hidlen⟩ := h.defineDim lib hvalid hw hlen hturn
      obtain ⟨⟨added₂, hext₂⟩, hnamed₂, hids₂⟩ := ih hnamed₁ hlens'
      refine ⟨⟨_, hext₁.trans hext₂⟩, hnamed₂, fun ids hids => ?_⟩
      obtain ⟨ids', hids', rfl⟩ := Option.map_eq_some_iff.mp hids
      obtain ⟨hlt, hmap⟩ := hids₂ ids' hids'
      -- the dimension of this axis, then those of the others
      refine ⟨fun i hi => ?_, fun hagree => ?_⟩
      · rcases List.mem_cons.mp hi with rfl | hi'
        · exact hext₂.lt hid
        · exact hlt i hi'
      · rw [List.map_cons]
        exact congrArg₂ _ ((hext₂.inqDimlen hid).trans (hidlen hagree)) (hmap hagree)

/-- **The definition of a variable**, whether it comes to its end or not: it happens beside the
other variables; and if it does, the variable is there, formed for the write when the writes of the
name agree. -/
theorem Named.define (h : Named f asked) (hnew : f.vars w.name = none) (chunks : List Int32)
    (codec : String) :
    Beside w.name asked f (NcZarr.define lib chunks codec f w.varMeta).2 ∧
      (∀ v, (NcZarr.define lib chunks codec f w.varMeta).2.vars w.name = some v →
        Agree w.name asked → Formed (NcZarr.define lib chunks codec f w.varMeta).2 w v) ∧
      ∀ v, (NcZarr.define lib chunks codec f w.varMeta).1 = some v →
        (NcZarr.define lib chunks codec f w.varMeta).2.vars w.name = some v := by
  have hnone : ∀ {g : NcFile}, g.vars w.name = none → ∀ v, g.vars w.name = some v →
      Agree w.name asked → Formed g w v := by
    intro g hg v hv
    rw [hg] at hv
    cases hv
  obtain ⟨⟨added, hext⟩, hnamed, hids⟩ :=
    h.defineDims lib hvalid hw (List.drop_zero (l := w.extents))
  have hbeside : Beside w.name asked f (NcZarr.defineDims lib w.name f 0 w.extents).2 :=
    ⟨⟨added, hext.1⟩, hnamed, fun name' _ => congrFun hext.2 name'⟩
  have hnew' := (congrFun hext.2 w.name).trans hnew
  rw [NcZarr.define, show w.varMeta.name = w.name from rfl,
    show w.varMeta.shape.extentList = w.extents from rfl]
  split
  · generalize NcZarr.defineDims lib w.name f 0 w.extents = r at hext hids hbeside hnew' ⊢
    obtain ⟨ids?, f₁⟩ := r
    cases ids? with
    | none => exact ⟨hbeside, hnone hnew', nofun⟩
    | some ids =>
      obtain ⟨hlt, hlens⟩ := hids ids rfl
      cases hdtype : w.varMeta.dtype with
      | none => exact ⟨hbeside, hnone hnew', nofun⟩
      | some dtype =>
        dsimp only
        cases hvar : f₁.defVar lib.toLibrary w.name (dtypeToNcType dtype) ids fun _ => none with
        | none => exact ⟨hbeside, hnone hnew', nofun⟩
        | some p =>
          obtain ⟨g, v⟩ := p
          obtain ⟨hbeside', hself, hformed⟩ :=
            hbeside.named.defVar (w := w) lib hdtype hlt hvar
          -- the variable stays, whether it can be set up or not
          have hdefined : ∀ v', g.vars w.name = some v' → Agree w.name asked →
              Formed g w v' := by
            intro v' hv' hagree
            obtain rfl := Option.some.inj (hself.symm.trans hv')
            exact hformed (hlens hagree)
          dsimp only
          split
          · refine ⟨hbeside.trans hbeside', hdefined, fun v' hv' => ?_⟩
            obtain rfl := Option.some.inj hv'
            exact hself
          · exact ⟨hbeside.trans hbeside', hdefined, nofun⟩
  · exact ⟨.refl h, hnone hnew, nofun⟩

end Definition

section Blocks

variable {d : Driver}

/-- Blocks do not make a dimension of fixed length longer. -/
theorem foldl_grow_fixed {ds : List NcDim} (h : ∀ D ∈ ds, D.unlimited = false)
    (ps : List (Nat × Nat)) : ps.foldl NcFile.grow ds = ds := by
  induction ps with
  | nil => rfl
  | cons p ps ih =>
    have hgrow : NcFile.grow ds p = ds := by
      refine List.ext_getElem? fun j => ?_
      rw [NcFile.grow, List.getElem?_modify]
      cases hD : ds[j]? with
      | none => rfl
      | some D => simp [h D (List.mem_of_getElem? hD)]
    rw [List.foldl_cons, hgrow, ih]

/-- **A block is put, or something else is left of the variable**: what the variable is defined as
stays, the other variables stay, and a block that is put is there, whatever was left before. -/
theorem Named.put (lib : Library) (h : Named d.file asked) (v : NcVar) :
    Beside w.name asked d.file (d.put lib v w.src w.varMeta).2.file ∧
      (∀ v', (d.put lib v w.src w.varMeta).2.file.vars w.name = some v' →
        ∀ w', Formed d.file w' v → Formed (d.put lib v w.src w.varMeta).2.file w' v') ∧
      ((d.put lib v w.src w.varMeta).1 = true → Formed d.file w v →
        ∃ v', (d.put lib v w.src w.varMeta).2.file.vars w.name = some v' ∧
          Stored (d.put lib v w.src w.varMeta).2.file w v') := by
  unfold Driver.put
  split
  · next g hput =>
    have hput : d.file.putVara lib.toLibrary w.name v w.extents w.src = some g := hput
    obtain ⟨hgrown, hvars⟩ := NcFile.putVara_spec hput
    have hdims : g.dims = d.file.dims :=
      hgrown.trans (foldl_grow_fixed (fun D hD => (h D hD).1) _)
    have hlen : g.inqDimlen = d.file.inqDimlen := by
      funext id
      rw [NcFile.inqDimlen, hdims]
      rfl
    have hself := congrFun hvars w.name
    rw [Function.update_self] at hself
    refine ⟨⟨⟨[], by rw [hdims, List.append_nil]⟩, fun D hD => h D (hdims ▸ hD), ?_⟩, ?_, ?_⟩
    · intro name' hne
      rw [hvars]
      exact Function.update_of_ne hne _ _
    · intro v' hv' w' hformed
      obtain rfl := Option.some.inj (hself.symm.trans hv')
      exact ⟨hformed.type, hlen ▸ hformed.lens, by rw [hdims]; exact hformed.ids⟩
    · intro _ hformed
      refine ⟨_, hself, hformed.type, hlen ▸ hformed.lens, by rw [hdims]; exact hformed.ids,
        fun is his => ?_⟩
      show (if is ∈ cells w.extents then _ else _) = _
      rw [if_pos his, NetCdf.size_eq hformed.type]
  -- a refused write leaves what the library leaves, in the one variable
  · refine ⟨⟨⟨[], (List.append_nil _).symm⟩, h, ?_⟩, ?_, fun hreturns => ?_⟩
    · exact fun name' hne => Function.update_of_ne hne _ _
    · intro v' hv' w' hformed
      have hself : (spoil d.file w.name v (lib.leaves d.file w.name)).vars w.name = some _ :=
        Function.update_self ..
      obtain rfl := Option.some.inj (hself.symm.trans hv')
      exact ⟨hformed.type, hformed.lens, hformed.ids⟩
    · cases hreturns

/-- **One write**: it happens beside the other variables, it leaves its own variable formed for it,
and if it returns, its block is stored. -/
theorem Named.write (lib : Library) (h : Named d.file asked) (hvalid : ∀ w ∈ asked, w.Valid)
    (hw : w ∈ asked) :
    Beside w.name asked d.file (d.write lib w.src w.varMeta).2.file ∧
      (Agree w.name asked → (∀ v, d.file.vars w.name = some v → Formed d.file w v) →
        (∀ v, (d.write lib w.src w.varMeta).2.file.vars w.name = some v →
          Formed (d.write lib w.src w.varMeta).2.file w v) ∧
        ((d.write lib w.src w.varMeta).1 = true →
          ∃ v, (d.write lib w.src w.varMeta).2.file.vars w.name = some v ∧
            Stored (d.write lib w.src w.varMeta).2.file w v)) := by
  unfold Driver.write
  split
  · split
    -- the variable is there: the data is put, or the put fails
    · next v hv =>
      obtain ⟨hbeside, hkeeps, hstores⟩ := h.put (w := w) lib v
      exact ⟨hbeside, fun _ hformed => ⟨fun v' hv' => hkeeps v' hv' w (hformed v hv),
        fun hreturns => hstores hreturns (hformed v hv)⟩⟩
    -- it is defined first
    · next hnew =>
      obtain ⟨hbeside, hformed, hthere⟩ := h.define lib hvalid hw hnew d.chunkShape d.codec
      split
      · next v f hdefine =>
        rw [hdefine] at hbeside hformed hthere
        have hv := hthere v rfl
        obtain ⟨hbeside', hkeeps, hstores⟩ :=
          Named.put (d := { d with file := f }) (w := w) lib hbeside.named v
        exact ⟨hbeside.trans hbeside', fun hagree _ =>
          ⟨fun v' hv' => hkeeps v' hv' w (hformed v hv hagree),
            fun hreturns => hstores hreturns (hformed v hv hagree)⟩⟩
      -- and the definition fails
      · next f hdefine =>
        rw [hdefine] at hbeside hformed
        exact ⟨hbeside, fun hagree _ => ⟨fun v hv => hformed v hv hagree, nofun⟩⟩
  · exact ⟨.refl h, fun _ hformed => ⟨hformed, nofun⟩⟩

end Blocks

section Writes

variable {d : Driver}

/-- **One write keeps the store**, whether it is of the name or of another. -/
theorem Kept.write (lib : Library) (h : Kept name d.file asked log)
    (hvalid : ∀ w ∈ asked, w.Valid) (hagree : Agree name asked) (hw : w ∈ asked) :
    Kept name (d.write lib w.src w.varMeta).2.file asked
      (log ++ [(w, (d.write lib w.src w.varMeta).1)]) := by
  obtain ⟨hbeside, hown⟩ := h.named.write lib hvalid hw
  -- a write of the name, or of another one, which leaves the variable alone
  by_cases hname : w.name = name
  · subst hname
    have hformed : ∀ v, d.file.vars w.name = some v → Formed d.file w v := by
      intro v hv
      obtain ⟨w₀, hw₀, hname, hformed⟩ := h.formed v hv
      exact hformed.agree (hagree.of_mem hw₀ hw hname rfl)
    obtain ⟨hkeeps, hstores⟩ := hown hagree hformed
    refine ⟨hbeside.named, fun v hv => ⟨w, hw, rfl, hkeeps v hv⟩, fun w' hw' => ?_⟩
    rw [settled_append, if_pos rfl] at hw'
    split at hw'
    · next hreturns =>
      obtain rfl := Option.some.inj hw'
      exact hstores hreturns
    · cases hw'
  · obtain ⟨added, hdims⟩ := hbeside.dims
    exact h.frame hbeside.named (List.Subset.refl _) hdims (hbeside.others name (Ne.symm hname))
      (by rw [settled_append, if_neg hname])

/-- A write leaves the rest of the driver alone. -/
theorem write_frame (lib : Library) (d : Driver) (src : List UInt8) (m : VarMeta) :
    (d.write lib src m).2 = { d with file := (d.write lib src m).2.file } := by
  -- a put that fails spoils the file and nothing else
  have hput : ∀ (d : Driver) (v : NcVar),
      (d.put lib v src m).2 = { d with file := (d.put lib v src m).2.file } := by
    intro d v
    unfold Driver.put
    split <;> rfl
  unfold Driver.write
  split
  · split
    · exact hput d _
    · split
      · exact hput _ _
      · rfl
  · rfl

/-- … and so does a sequence of writes. -/
theorem writeAll_frame (calls : List (Library × Write)) (d : Driver) :
    (d.writeAll calls).2 = { d with file := (d.writeAll calls).2.file } := by
  induction calls generalizing d with
  | nil => rfl
  | cons call calls ih =>
    obtain ⟨lib, w⟩ := call
    rw [Driver.writeAll]
    dsimp only
    rw [ih, write_frame lib d w.src w.varMeta]

/-- **A sequence of writes keeps the store.** -/
theorem Kept.writeAll (calls : List (Library × Write)) (h : Kept name d.file asked log)
    (hvalid : ∀ w ∈ asked ++ calls.map Prod.snd, w.Valid)
    (hagree : Agree name (asked ++ calls.map Prod.snd)) :
    Kept name (d.writeAll calls).2.file (asked ++ calls.map Prod.snd)
      (log ++ (d.writeAll calls).1) := by
  induction calls generalizing d asked log with
  | nil =>
    rw [List.map_nil, List.append_nil, Driver.writeAll, List.append_nil]
    exact h
  | cons call calls ih =>
    obtain ⟨lib, w⟩ := call
    have hassoc : asked ++ ((lib, w) :: calls).map Prod.snd =
        (asked ++ [w]) ++ calls.map Prod.snd := by simp
    rw [hassoc] at hvalid hagree ⊢
    -- the first write may know of the others, for all agree about the name
    have hstep := (h.more (List.subset_append_left asked [w])).write lib
      (fun w' hw' => hvalid w' (List.mem_append_left _ hw')) hagree.of_append
      (List.mem_append_right _ (List.mem_singleton_self w))
    have hkept := ih hstep hvalid hagree
    rwa [List.append_assoc log, List.singleton_append] at hkept

end Writes

/-! ### Reading back -/

/-- A read of what `w` wrote: it knows type and shape, the boundary accepts its box, which does not
wrap around, and the buffer takes what it selects. -/
structure Asks (w : Write) (m : VarMeta) (bbox : Option Bbox) (capacity : Nat) : Prop where
  dtype : m.dtype = w.varMeta.dtype
  shape : m.shape = w.varMeta.shape
  machine : m.shape.IsMachine
  accepted : validateBbox bbox m.shape = .ok
  nowrap : ∀ b ∈ bbox, ¬ b.Wraps m.shape
  fits : (selection m.shape bbox).2.1.prod * elementSize m.dtype ≤ capacity
  memory : capacity < 2 ^ 64

section Reads

variable {d d₀ d₁ : Driver} {m : VarMeta} {t : Int} {bbox : Option Bbox} {capacity : Nat}
  {calls : List (Library × Write)}

/-- A box that is accepted has an entry for each dimension. -/
theorem length_selection (hok : validateBbox bbox m.shape = .ok) :
    (selection m.shape bbox).1.length = (selection m.shape bbox).2.1.length ∧
      (selection m.shape bbox).2.1.length = m.shape.extentList.length ∧
      (selectionSteps m.shape bbox).length = m.shape.extentList.length :=
  @NetCdf.length_selection ⟨m.dtype, m.shape, 1⟩ bbox hok

/-- `read` of a box that the boundary accepts, into a buffer that takes it. -/
theorem read_eq (hopen : d.isOpen = true ∧ d.isWriteMode = false)
    (hv : d.file.vars m.name = some v) (hok : validateBbox bbox m.shape = .ok)
    (hdtype : elementSize m.dtype ≠ 0)
    (hcapacity : (selection m.shape bbox).2.1.prod * elementSize m.dtype ≤ capacity)
    (hsize : capacity < 2 ^ 64) :
    d.read capacity m t bbox =
      (d.file.getVars v (selection m.shape bbox).1 (selection m.shape bbox).2.1
        (selectionSteps m.shape bbox)).map fun out =>
          (out, (selection m.shape bbox).2.1.prod * elementSize m.dtype) := by
  obtain ⟨hstart, hcount, -⟩ := length_selection hok
  have hstart' := NetCdf.padded_exact (e := 0) (hstart.trans hcount)
  have hcount' := NetCdf.padded_exact (e := 0) hcount
  -- steps are padded with ones, as in the netCDF driver
  have hsteps : padded m.shape.extentList.length 1 (selection m.shape bbox).2.2 =
      some (selectionSteps m.shape bbox) := by
    simpa [NetCdf.leading] using
      @NetCdf.padded_selectionSteps ⟨m.dtype, m.shape, 1⟩ bbox hok false
  -- the product does not wrap around below the capacity
  have htotal : u64 ((selection m.shape bbox).2.1.foldl (fun n e => u64 (n * e)) 1 *
      Driver.dtypeSize m.dtype) = (selection m.shape bbox).2.1.prod * elementSize m.dtype := by
    rw [Driver.dtypeSize, if_neg hdtype]
    exact u64_prod_mul (by omega)
  simp only [Driver.read, if_pos hopen, hv, Option.bind_some, hstart', hcount', hsteps, htotal]
  rw [if_neg (by omega)]

/-- **What is stored is read back**, every box of it. -/
theorem read_stored (h : Stored d.file w v) (hvalid : w.Valid)
    (hopen : d.isOpen = true ∧ d.isWriteMode = false) (hv : d.file.vars m.name = some v)
    (hasks : Asks w m bbox capacity) :
    ∃ out, d.read capacity m t bbox = some (out, out.length) ∧
      Elements ⟨m.dtype, m.shape, 1⟩ bbox
        (fun is => element w.size w.src (position w.extents is)) out := by
  have hextents : m.shape.extentList = w.extents := by rw [hasks.shape, Write.extents]
  have helem : elementSize m.dtype = w.size := by rw [hasks.dtype, Write.size]
  -- a box that is accepted and does not wrap around is inside
  have hinside := NetCdf.inside_of_accepted hasks.machine hasks.accepted hasks.nowrap
  have hlast : Within (selection m.shape bbox).2.1 (last (selection m.shape bbox).2.1) := by
    refine within_last ?_
    cases bbox with
    | none =>
      show ∀ e ∈ m.shape.extentList, 0 < e
      rw [hextents]
      exact hvalid.pos
    | some b =>
      intro e he
      obtain ⟨k, hk, rfl⟩ := List.mem_map.mp he
      have hpos := (NetCdf.boxFits_of_inside (hinside b rfl) hk).extent_pos
      show 0 < (b.extents k).toNat
      omega
  obtain ⟨hstart, hcount, hsteps⟩ := length_selection hasks.accepted
  have hlen : v.dimids.length = m.shape.extentList.length := by
    rw [hextents, ← h.lens, List.length_map]
  -- so `nc_get_vars` finds every cell
  have hin : d.file.Inside v (selection m.shape bbox).1 (selection m.shape bbox).2.1
      (selectionSteps m.shape bbox) := by
    refine ⟨hlen ▸ hstart.trans hcount, hlen ▸ hcount, hlen ▸ hsteps, .inr ?_⟩
    rw [NetCdf.shift_selected hinside hlast, h.lens, ← hextents]
    exact NetCdf.within_selected hinside hlast
  have hcell : ∀ is, Within (selection m.shape bbox).2.1 is →
      selected bbox is ∈ cells w.extents := fun is his =>
    mem_cells.mpr (hextents ▸ NetCdf.within_selected hinside his)
  -- and every cell holds one element
  have hcontent : ∀ is, Within (selection m.shape bbox).2.1 is →
      (v.content (NcFile.shift (selection m.shape bbox).1 is
        (selectionSteps m.shape bbox))).length = elementSize m.dtype := by
    intro is his
    rw [NetCdf.shift_selected hinside his, h.length_content hvalid (hcell is his), helem]
  have hlength : ((cells (selection m.shape bbox).2.1).flatMap fun is =>
      v.content (NcFile.shift (selection m.shape bbox).1 is
        (selectionSteps m.shape bbox))).length =
          (selection m.shape bbox).2.1.prod * elementSize m.dtype := by
    rw [List.length_flatMap, List.map_congr_left fun is his => hcontent is (mem_cells.mp his)]
    simp [length_cells]
  refine ⟨_, ?_, hlength, fun is his => NetCdf.within_selected hinside his, fun is his => ?_⟩
  · rw [read_eq hopen hv hasks.accepted (by rw [helem]; exact hvalid.dtype) hasks.fits hasks.memory,
      NcFile.getVars, if_pos hin, Option.map_some, hlength]
  · refine (NetCdf.element_flatMap hcontent his).trans ?_
    rw [NetCdf.shift_selected hinside his, h.content _ (hcell is his)]
    rfl

/-- `open_write` makes an empty group. -/
theorem openWrite_spec {lib : Library} {mw : AttrConf} (h : d₀.openWrite lib mw = some d) :
    d.file = .empty ∧ d.isOpen = true ∧ d.isWriteMode = true := by
  unfold Driver.openWrite at h
  split at h
  · cases h
  · split at h
    · cases h
    · split at h
      · obtain rfl := Option.some.inj h
        exact ⟨rfl, rfl, rfl⟩
      · cases h

/-- The log has the writes that were asked for. -/
theorem writeAll_map : (d.writeAll calls).1.map Prod.fst = calls.map Prod.snd := by
  induction calls generalizing d with
  | nil => rfl
  | cons call calls ih =>
    obtain ⟨lib, w⟩ := call
    rw [Driver.writeAll, List.map_cons, List.map_cons]
    exact congrArg _ ih

/-- An open of a URI that was written to finds what was stored. -/
theorem openRead_of_close {lib : Library} {mr : AttrConf} {x : OpenSettings}
    (hwrite : d.isOpen = true ∧ d.isWriteMode = true) (hread : readSettings mr = .ok x)
    (huri : x.path = d.uri) (hopens : lib.opens x.path = true) :
    ∃ d', d.close.openRead lib mr = some d' ∧ d'.file = d.file ∧
      d'.isOpen = true ∧ d'.isWriteMode = false := by
  have hclosed : d.close.isOpen = false := by rw [Driver.close, if_pos hwrite.1]
  have hdisk : d.close.disk x.path = some d.file := by
    rw [Driver.close, if_pos hwrite.1, huri]
    simp only [if_pos hwrite.2, Function.update_self]
  have hopened : d.close.openRead lib mr = some
      { d.close with
        isOpen := true, isWriteMode := false, uri := x.path
        chunkShape := NcZarr.chunkShape mr.toConf, codec := NcZarr.codec mr.toConf
        file := d.file } := by
    simp only [Driver.openRead, hclosed, Bool.false_eq_true, if_false, hread, hdisk, hopens,
      if_true]
  exact ⟨_, hopened, rfl, rfl, rfl⟩

/-- **What is written is read back.** After `open_write`, any sequence of writes, some of which may
fail at any point, `close` and `open_read` of the same URI, a `read` of a name that keeps its type
and its shape delivers the elements of the last write to it, if that returned: those of the box, for
every box that is accepted and does not wrap around, and for every timestep. -/
theorem last_write_read_back {lib lib' : Library} {mw mr : AttrConf} {x : OpenSettings}
    (hopen : d₀.openWrite lib mw = some d) (hvalid : ∀ call ∈ calls, call.2.Valid)
    (hread : readSettings mr = .ok x) (huri : x.path = d.uri) (hopens : lib'.opens x.path = true) :
    ∃ d₁, (d.writeAll calls).2.close.openRead lib' mr = some d₁ ∧
      ∀ w m t bbox capacity, Agree m.name (calls.map Prod.snd) →
        settled (d.writeAll calls).1 m.name = some w → Asks w m bbox capacity →
        ∃ out, d₁.read capacity m t bbox = some (out, out.length) ∧
          Elements ⟨m.dtype, m.shape, 1⟩ bbox
            (fun is => element w.size w.src (position w.extents is)) out := by
  obtain ⟨hfile, hmode⟩ := openWrite_spec hopen
  have hvalid' : ∀ w ∈ calls.map Prod.snd, w.Valid := by
    intro w hw
    obtain ⟨call, hcall, rfl⟩ := List.mem_map.mp hw
    exact hvalid call hcall
  -- for a name whose writes agree, the file keeps the last one that returned
  have hkept : ∀ name, Agree name (calls.map Prod.snd) →
      Kept name (d.writeAll calls).2.file (calls.map Prod.snd) (d.writeAll calls).1 := by
    intro name hagree
    have hempty : Kept name d.file [] [] := by
      rw [hfile]
      exact .empty
    exact hempty.writeAll calls hvalid' hagree
  -- the store is opened with the file that was closed
  obtain ⟨d₁, hopen₁, hfile₁, hmode₁⟩ := openRead_of_close
    (d := (d.writeAll calls).2) (by rw [writeAll_frame]; exact hmode) hread
    (by rw [writeAll_frame]; exact huri) hopens
  refine ⟨d₁, hopen₁, fun w m t bbox capacity hagree hlast hasks => ?_⟩
  obtain ⟨v, hv, hstored⟩ := (hkept m.name hagree).stored _ hlast
  have hmem : w ∈ calls.map Prod.snd := by
    rw [← writeAll_map (d := d)]
    exact List.mem_map_of_mem (mem_of_settled hlast)
  rw [← hfile₁] at hv hstored
  exact read_stored hstored (hvalid' w hmem) hmode₁ hv hasks

end Reads

/-- A library that allows what it is told to, and of a block that it cannot put leaves ones. -/
def libraryOf (allows : NcCall → Bool) : Library where
  allows _ := allows
  fill type := List.replicate type.size 0
  creates _ := true
  opens _ := true
  setsUp _ _ _ _ := true
  leaves _ _ _ := [1]

/-- A square array with the given bytes. -/
def square (name : String) (src : List UInt8) : Write :=
  ⟨src, { datasetId := 1, name := text name, dtype := some .u8
          shape := ⟨2, fun _ => 2, fun _ => 0⟩ }⟩

/-- A row of bytes. -/
def line (name : String) (src : List UInt8) : Write :=
  ⟨src, { datasetId := 1, name := text name, dtype := some .u8
          shape := ⟨1, fun _ => src.length, fun _ => 0⟩ }⟩

/-- The second dimension of `T` cannot be defined, then its data cannot be written, then a write
returns; in between and afterwards `U` fails and changes its shape. -/
def interrupted : List (Library × Write) :=
  [(libraryOf fun
      | .defDim name _ => decide (name ≠ text "T_dim1")
      | _ => true, square "T" [1, 2, 3, 4]),
    (libraryOf fun
      | .putVara _ _ => false
      | _ => true, square "T" [1, 2, 3, 4]),
    (libraryOf fun _ => true, line "U" [1, 2, 3]),
    (libraryOf fun _ => true, square "T" [3, 4, 5, 6]),
    (libraryOf fun
      | .putVara _ _ => false
      | _ => true, square "U" [7, 8, 9, 10])]

theorem interrupted_valid : ∀ call ∈ interrupted, call.2.Valid := by
  intro call hcall
  simp only [interrupted, List.mem_cons, List.not_mem_nil, or_false] at hcall
  rcases hcall with rfl | rfl | rfl | rfl | rfl <;>
    exact ⟨by decide, by decide, by decide, by decide⟩

/-- They agree about the name. -/
theorem interrupted_agree : Agree (text "T") (interrupted.map Prod.snd) := by
  have hsquare : ∀ w ∈ (interrupted.map Prod.snd).filter fun w => w.name = text "T",
      ∃ src, w = square "T" src := by
    intro w hw
    obtain ⟨hmem, hname⟩ := List.mem_filter.mp hw
    simp only [interrupted, List.map_cons, List.map_nil, List.mem_cons, List.not_mem_nil,
      or_false] at hmem
    rcases hmem with rfl | rfl | rfl | rfl | rfl
    · exact ⟨_, rfl⟩
    · exact ⟨_, rfl⟩
    · exact absurd (of_decide_eq_true hname) (by decide)
    · exact ⟨_, rfl⟩
    · exact absurd (of_decide_eq_true hname) (by decide)
  intro w hw w' hw' _
  obtain ⟨src, rfl⟩ := hsquare w hw
  obtain ⟨src', rfl⟩ := hsquare w' hw'
  exact ⟨rfl, rfl⟩

/-- The second column. -/
def column : Bbox :=
  ⟨2, fun k => if k.val = 0 then 0 else 1, fun k => if k.val = 0 then 2 else 1, fun _ => 1⟩

/-- The second column of the square is that of the write that returned. -/
theorem last_write_read_back_of_interrupted :
    ∃ d d₁ out, ({} : Driver).openWrite (libraryOf fun _ => true)
        (NcDriver.leastConf .nczarr) = some d ∧
      (d.writeAll interrupted).2.close.openRead (libraryOf fun _ => true)
        (NcDriver.leastConf .nczarr) = some d₁ ∧
      d₁.read 2 (square "T" []).varMeta 5 (some column) = some (out, 2) ∧
      element 1 out 0 = [4] ∧ element 1 out 1 = [6] := by
  -- the fourth of the five writes is the last of its name that returned
  obtain ⟨d, hopen, huri, hlast⟩ : ∃ d, ({} : Driver).openWrite (libraryOf fun _ => true)
      (NcDriver.leastConf .nczarr) = some d ∧ d.uri = "file:///data/out#mode=nczarr,file" ∧
      settled (d.writeAll interrupted).1 (text "T") = some (square "T" [3, 4, 5, 6]) :=
    ⟨_, rfl, rfl, rfl⟩
  obtain ⟨x, hread, hpath⟩ : ∃ x, readSettings (NcDriver.leastConf .nczarr) = .ok x ∧
      x.path = "file:///data/out#mode=nczarr,file" := ⟨_, rfl, rfl⟩
  obtain ⟨d₁, hopen₁, hall⟩ := last_write_read_back hopen interrupted_valid hread
    (hpath.trans huri.symm) (show (libraryOf fun _ => true).opens x.path = true from rfl)
  -- the second column, one element a row
  have hasks : Asks (square "T" [3, 4, 5, 6]) (square "T" []).varMeta (some column) 2 := by
    refine ⟨rfl, rfl, fun d => ?_, by decide +kernel, ?_, by decide, by decide⟩
    · revert d
      decide +kernel
    · rintro b hb ⟨-, -, k, -, hlarge⟩
      obtain rfl := Option.some.inj hb
      revert k
      decide +kernel
  obtain ⟨out, hout, helements⟩ := hall _ _ 5 _ 2 interrupted_agree hlast hasks
  have hlen : out.length = 2 := helements.length
  rw [hlen] at hout
  exact ⟨d, d₁, out, hopen, hopen₁, hout, helements.element [0, 0] (by decide),
    helements.element [1, 0] (by decide)⟩

/-! ### Writes that follow a failure -/

/-- The library refuses nothing. -/
structure Library.Grants (lib : Library) : Prop where
  allows : ∀ f call, lib.allows f call = true
  setsUp : ∀ f name chunks codec, lib.setsUp f name chunks codec = true

section Recovery

variable {d d₀ : Driver} (hlib : lib.Grants)
include hlib

theorem defineDims_returns (f : NcFile) (name : List UInt8) (k : Nat) (lens : List Nat) :
    ∃ ids, (defineDims lib name f k lens).1 = some ids := by
  induction lens generalizing f k with
  | nil => exact ⟨[], rfl⟩
  | cons len lens ih =>
    obtain ⟨f', id, hturn⟩ : ∃ f' id, defineDim lib name f k len = some (f', id) := by
      unfold defineDim
      split
      · exact ⟨_, _, rfl⟩
      · next hnone => exact ⟨_, _, if_pos ⟨hlib.allows _ _, hnone⟩⟩
    obtain ⟨ids, hids⟩ := ih f' (k + 1)
    rw [defineDims, hturn]
    exact ⟨id :: ids, by simp [hids]⟩

theorem define_returns (hvalid : w.Valid) (f : NcFile) (chunks : List Int32) (codec : String) :
    ∃ v, (define lib chunks codec f w.varMeta).1 = some v := by
  obtain ⟨ids, hids⟩ := defineDims_returns hlib f w.varMeta.name 0 w.varMeta.shape.extentList
  obtain ⟨dtype, hdtype⟩ : ∃ dtype, w.varMeta.dtype = some dtype :=
    Option.ne_none_iff_exists'.mp fun hnone => hvalid.dtype (by rw [hnone]; rfl)
  rw [define, if_pos (hlib.allows _ _)]
  generalize defineDims lib w.varMeta.name f 0 w.varMeta.shape.extentList = r at hids ⊢
  obtain ⟨ids?, f'⟩ := r
  subst hids
  simp only [hdtype, NcFile.defVar, hlib.allows, hlib.setsUp, if_true]
  exact ⟨_, rfl⟩

theorem put_returns (hvalid : w.Valid) (h : Formed d.file w v) :
    (d.put lib v w.src w.varMeta).1 = true := by
  have hholds : d.file.Holds v w.extents := by
    rw [NcFile.Holds, ← h.lens, List.forall₂_map_right_iff, List.forall₂_same]
    exact fun id _ => .inr le_rfl
  have hroom : w.extents.prod * v.type.size ≤ w.src.length := by
    rw [NetCdf.size_eq h.type, hvalid.payload]
  have hput : ∃ f, d.file.putVara lib.toLibrary w.varMeta.name v w.varMeta.shape.extentList
      w.src = some f := ⟨_, if_pos ⟨hlib.allows _ _, hholds, hroom⟩⟩
  obtain ⟨f, hput⟩ := hput
  rw [Driver.put, hput]

/-- **A write that the library grants returns**, whatever failed before it. -/
theorem Kept.write_returns (h : Kept w.name d.file asked log) (hvalid : ∀ w ∈ asked, w.Valid)
    (hagree : Agree w.name asked) (hw : w ∈ asked)
    (hmode : d.isOpen = true ∧ d.isWriteMode = true) :
    (d.write lib w.src w.varMeta).1 = true := by
  rw [Driver.write, if_pos hmode]
  split
  · next v hv =>
    -- a variable of the name is formed for this write as well
    obtain ⟨w₀, hw₀, hname, hformed⟩ := h.formed v hv
    exact put_returns hlib (hvalid w hw) (hformed.agree (hagree.of_mem hw₀ hw hname rfl))
  · next hnew =>
    obtain ⟨-, hformed, hthere⟩ := h.named.define lib hvalid hw hnew d.chunkShape d.codec
    obtain ⟨v, hv⟩ := define_returns hlib (hvalid w hw) d.file d.chunkShape d.codec
    generalize NcZarr.define lib d.chunkShape d.codec d.file w.varMeta = r at hformed hthere hv ⊢
    obtain ⟨v?, f⟩ := r
    subst hv
    exact put_returns hlib (hvalid w hw) (hformed v (hthere v rfl) hagree)

omit hlib in
theorem writeAll_append (calls : List (Library × Write)) :
    d.writeAll (calls ++ [(lib, w)]) =
      ((d.writeAll calls).1 ++ [(w, ((d.writeAll calls).2.write lib w.src w.varMeta).1)],
        ((d.writeAll calls).2.write lib w.src w.varMeta).2) := by
  induction calls generalizing d with
  | nil =>
    rw [List.nil_append, Driver.writeAll]
    rfl
  | cons call calls ih =>
    obtain ⟨lib', w'⟩ := call
    rw [List.cons_append, Driver.writeAll, Driver.writeAll]
    dsimp only
    rw [ih]
    rfl

/-- **A failure is in the way of no later write.** After `open_write` and any sequence of writes,
some of which may have failed at any point, a write that the library grants to a name that keeps its
type and its shape returns, and is then the last of its name. -/
theorem recovers {lib₀ : Library} {mw : AttrConf} {calls : List (Library × Write)}
    (hopen : d₀.openWrite lib₀ mw = some d) (hvalid : ∀ call ∈ calls ++ [(lib, w)], call.2.Valid)
    (hagree : Agree w.name ((calls ++ [(lib, w)]).map Prod.snd)) :
    (d.writeAll (calls ++ [(lib, w)])).1 = (d.writeAll calls).1 ++ [(w, true)] ∧
      settled (d.writeAll (calls ++ [(lib, w)])).1 w.name = some w := by
  obtain ⟨hfile, hmode⟩ := openWrite_spec hopen
  rw [List.map_append, List.map_singleton] at hagree
  have hvalid' : ∀ w' ∈ calls.map Prod.snd ++ [w], w'.Valid := by
    intro w' hw'
    rw [← List.map_singleton (f := Prod.snd) (a := (lib, w)), ← List.map_append] at hw'
    obtain ⟨call, hcall, rfl⟩ := List.mem_map.mp hw'
    exact hvalid call hcall
  have hempty : Kept w.name d.file [] [] := by
    rw [hfile]
    exact .empty
  -- the writes so far, whichever failed, keep what is known of the name
  have hkept := hempty.writeAll calls (fun w' hw' => hvalid' w' (List.mem_append_left _ hw'))
    hagree.of_append
  rw [List.nil_append] at hkept
  -- so that the write that the library grants meets no obstacle
  have hreturns := (hkept.more (List.subset_append_left _ [w])).write_returns hlib hvalid' hagree
    (List.mem_append_right _ (List.mem_singleton_self w)) (by rw [writeAll_frame]; exact hmode)
  have hlog : (d.writeAll (calls ++ [(lib, w)])).1 = (d.writeAll calls).1 ++ [(w, true)] := by
    rw [writeAll_append, hreturns]
  refine ⟨hlog, ?_⟩
  rw [hlog, settled_append, if_pos rfl]
  rfl

end Recovery

/-- The dimension and the variable that two writes leave behind do not stop the next, nor does the
other variable. -/
theorem recovers_of_interrupted :
    ∃ d, ({} : Driver).openWrite (libraryOf fun _ => true) (NcDriver.leastConf .nczarr) = some d ∧
      (d.writeAll (interrupted.take 3)).1.map Prod.snd = [false, false, true] ∧
      (d.writeAll (interrupted.take 3 ++
          [(libraryOf fun _ => true, square "T" [3, 4, 5, 6])])).1.map Prod.snd =
        [false, false, true, true] := by
  obtain ⟨d, hopen, hfailed⟩ : ∃ d, ({} : Driver).openWrite (libraryOf fun _ => true)
      (NcDriver.leastConf .nczarr) = some d ∧
      (d.writeAll (interrupted.take 3)).1.map Prod.snd = [false, false, true] := ⟨_, rfl, rfl⟩
  have hgrants : (libraryOf fun _ => true).Grants := ⟨fun _ _ => rfl, fun _ _ _ _ => rfl⟩
  have hall : Agree (square "T" [3, 4, 5, 6]).name ((interrupted.take 3 ++
      [(libraryOf fun _ => true, square "T" [3, 4, 5, 6])]).map Prod.snd ++
        [square "U" [7, 8, 9, 10]]) := interrupted_agree
  obtain ⟨hlog, -⟩ := recovers hgrants hopen
    (fun call hcall => interrupted_valid call (List.take_subset 4 interrupted hcall))
    hall.of_append
  refine ⟨d, hopen, hfailed, ?_⟩
  rw [hlog, List.map_append, hfailed]
  rfl

end Amio.NcZarr
