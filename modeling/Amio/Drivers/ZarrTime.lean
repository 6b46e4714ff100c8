import Amio.Api.ViewShape

/-!
# The time axis of a Zarr store

`Zarr_Driver::describe_variable` reports the leading dimension of the store as the timesteps of the
variable and the others as its shape. `Zarr_Driver::read` knows nothing of this: it drops the
timestep, counts the dimensions of the box from the leading one, and asks for an array of one
dimension less than the store has.

TensorStore is not part of the repository. `TensorStore` states what is used of its `Read`: the
domain of the source has to be aligned with that of the target, last dimension with last dimension,
a dimension of extent one being free, and a source that has the extents of the target behind leading
ones is copied in order. `TranslateSizedInterval` restricts one dimension.

With that, the two functions agree on stores with a single timestep that are read whole, on a box
that selects the first element of such a store, and on nothing else (`read_agrees_iff`).
-/

namespace Amio.Zarr

open RowMajor

/-! ### TensorStore -/

/-- What a view selects of one dimension. -/
structure Interval where
  origin : Nat
  size : Nat
  step : Nat
  deriving DecidableEq, Repr

def Interval.full (e : Nat) : Interval := ⟨0, e, 1⟩

/-- The index of the store behind an index of the view. -/
def Interval.index (v : Interval) (i : Nat) : Nat := v.origin + i * v.step

/-- The last index. -/
def Interval.last (v : Interval) : Nat := v.origin + (v.size - 1) * v.step

/-- `Dims(d).TranslateSizedInterval(o, n, s)`, the interval `w` being `o`, `o + s`, and so on. -/
def translateSizedInterval (view : List Interval) (d : Nat) (w : Interval) :
    Option (List Interval) :=
  (view[d]?).bind fun v =>
    if w.size = 0 ∨ w.last < v.size then
      some (view.set d ⟨v.index w.origin, w.size, v.step * w.step⟩)
    else none

/-- The extents of a view. -/
def sizes (view : List Interval) : List Nat := view.map (·.size)

/-- The elements of a view in row-major order; an element is its bytes. -/
def elements (content : List Nat → List UInt8) (view : List Interval) : List (List UInt8) :=
  (cells (sizes view)).map fun is => content (List.zipWith Interval.index view is)

/-- A source domain can be aligned with a target: what has no partner has extent one, and so has
what differs from its partner. -/
def Aligns (source target : List Nat) : Prop :=
  (∀ e ∈ source.take (source.length - target.length), e = 1) ∧
    List.Forall₂ (fun s t => s = t ∨ s = 1) (source.drop (source.length - target.length))
      (target.drop (target.length - source.length))

/-- `tensorstore::Read` of a view into an array. -/
structure TensorStore where
  read : (content : List Nat → List UInt8) → (view : List Interval) → (target : List Nat) →
    Option (List (List UInt8))
  copies : ∀ content view target n, sizes view = List.replicate n 1 ++ target →
    read content view target = some (elements content view)
  aligned : ∀ content view target out, read content view target = some out →
    Aligns (sizes view) target

/-! ### The driver -/

/-- `describe_variable` of a store with an element type that AMIO knows. -/
def describeVariable (dtype : Dtype) (extents : List Nat) : Option VariableInfo :=
  -- the leading axis is the record, if there are two or more
  let shapeStart := if 2 ≤ extents.length then 1 else 0
  let totalTimesteps : Int := if 2 ≤ extents.length then extents.headD 0 else 1
  let reportedRank := extents.length - shapeStart
  if extents.length < 1 ∨ reportedRank < 1 ∨ maxRank < reportedRank then none
  else some
    { dtype := some dtype
      shape :=
        { rank := reportedRank
          extents := fun d => ((extents[(d : Nat) + shapeStart]?).getD 0 : Nat)
          strides := fun _ => 0 }
      -- an array without records still has a timestep
      totalTimesteps := if 0 < totalTimesteps then totalTimesteps else 1 }

/-- What the box selects of a dimension. -/
def boxInterval (b : Bbox) (d : Fin maxRank) : Interval :=
  ⟨(b.offsets d).toNat, (b.extents d).toNat, (b.strides d).toNat⟩

/-- One turn of the loop of `read`: a dimension of the box restricts the dimension of the store with
the same number. -/
def sliceStep (b : Bbox) (view : List Interval) (d : Fin maxRank) : Option (List Interval) :=
  translateSizedInterval view d (boxInterval b d)

/-- The domain that `read` asks for. -/
def restrict (extents : List Nat) : Option Bbox → Option (List Interval)
  | some b => (dims b.rank).foldlM (sliceStep b) (extents.map Interval.full)
  | none => some (extents.map Interval.full)

/-- `total_bytes` of `read`. -/
def totalBytes (info : VariableInfo) (bbox : Option Bbox) : Nat :=
  u64 ((selectedExtents info.shape bbox).foldl (fun n e => u64 (n * e)) 1 * elementSize info.dtype)

/-- What `read` asks TensorStore for: the restricted domain, into an array of `shape_vec`. -/
def transfer (ts : TensorStore) (content : List Nat → List UInt8) (extents : List Nat)
    (info : VariableInfo) (bbox : Option Bbox) : Option (List (List UInt8)) :=
  (restrict extents bbox).bind fun view => ts.read content view (selectedExtents info.shape bbox)

/-- `Zarr_Driver::read` into a buffer of the given capacity: the elements and `used_bytes`, or what
it throws. The timestep is not used. -/
def tryRead (ts : TensorStore) (content : List Nat → List UInt8) (extents : List Nat)
    (info : VariableInfo) (capacity : Nat) (_timestep : Int) (bbox : Option Bbox) :
    Except ReadError (List (List UInt8) × Nat) :=
  readInto capacity (totalBytes info bbox) (transfer ts content extents info bbox)

/-- `read` for a caller that catches every exception alike, as `sync_fetch` does. -/
def read (ts : TensorStore) (content : List Nat → List UInt8) (extents : List Nat)
    (info : VariableInfo) (capacity : Nat) (timestep : Int) (bbox : Option Bbox) :
    Option (List (List UInt8) × Nat) :=
  (tryRead ts content extents info capacity timestep bbox).toOption

/-! ### The property -/

/-- What is to be delivered: the box, or everything, behind the leading index `t`. -/
def wanted (extents : List Nat) (t : Int) (bbox : Option Bbox) : List Interval :=
  ⟨t.toNat, 1, 1⟩ ::
    match bbox with
    | some b => (dims b.rank).map (boxInterval b)
    | none => extents.tail.map Interval.full

/-- Whatever the store holds, `read` delivers the wanted elements and reports their size. -/
def Agrees (ts : TensorStore) (extents : List Nat) (info : VariableInfo) (capacity : Nat) (t : Int)
    (bbox : Option Bbox) : Prop :=
  ∀ content, read ts content extents info capacity t bbox =
    some (elements content (wanted extents t bbox),
      (sizes (wanted extents t bbox)).prod * elementSize info.dtype)

/-- The leading dimension has nothing to choose from, and a box selects the first element of a store
whose last dimension has nothing to choose from either. -/
def Degenerate (extents : List Nat) (t : Int) : Option Bbox → Prop
  | some b => t = 0 ∧ 1 ≤ extents.headD 0 ∧ extents.getLastD 0 = 1 ∧
      ∀ d ∈ dims b.rank, b.offsets d = 0 ∧ b.extents d = 1
  | none => extents.headD 0 = 1

/-! ### Slices -/

section Slices

variable {b : Bbox} {view view' : List Interval} {d : Fin maxRank} {ds : List (Fin maxRank)}

/-- What the slice of one axis does. -/
theorem sliceStep_spec (h : sliceStep b view d = some view') :
    ∃ v, view[(d : Nat)]? = some v ∧
      ((boxInterval b d).size = 0 ∨ (boxInterval b d).last < v.size) ∧
      view' = view.set d ⟨v.index (boxInterval b d).origin, (boxInterval b d).size,
        v.step * (boxInterval b d).step⟩ := by
  obtain ⟨v, hv, h⟩ := Option.bind_eq_some_iff.mp h
  split at h
  · next hin => exact ⟨v, hv, hin, (Option.some.inj h).symm⟩
  · cases h

/-- Another axis has another number. -/
theorem val_ne_of_notMem (hd : d ∉ ds) : ∀ e ∈ ds, (e : Nat) ≠ d := by
  intro e he heq
  obtain rfl : e = d := Fin.ext heq
  exact hd he

/-- The loop slices the dimensions of the box and leaves the others. -/
theorem foldlM_sliceStep (hnodup : ds.Nodup)
    (hfull : ∀ d ∈ ds, ∀ v, view[(d : Nat)]? = some v → v.origin = 0 ∧ v.step = 1)
    (h : ds.foldlM (sliceStep b) view = some view') :
    view'.length = view.length ∧
      (∀ d ∈ ds, view'[(d : Nat)]? = some (boxInterval b d)) ∧
      (∀ d ∈ ds, ∃ v, view[(d : Nat)]? = some v ∧
        ((boxInterval b d).size = 0 ∨ (boxInterval b d).last < v.size)) ∧
      ∀ j, (∀ d ∈ ds, (d : Nat) ≠ j) → view'[j]? = view[j]? := by
  induction ds generalizing view with
  | nil =>
    obtain rfl := Option.some.inj h
    simp
  | cons d ds ih =>
    obtain ⟨hd, hnodup⟩ := List.nodup_cons.mp hnodup
    rw [List.foldlM_cons] at h
    obtain ⟨view₁, hstep, h⟩ := Option.bind_eq_some_iff.mp h
    obtain ⟨v, hv, hin, rfl⟩ := sliceStep_spec hstep
    obtain ⟨horigin, hone⟩ := hfull d List.mem_cons_self v hv
    -- the axis was whole before, so that it is the interval of the box now
    have hset : (⟨v.index (boxInterval b d).origin, (boxInterval b d).size,
        v.step * (boxInterval b d).step⟩ : Interval) = boxInterval b d := by
      rw [Interval.index, horigin, hone, Nat.zero_add, Nat.mul_one, Nat.one_mul]
    rw [hset] at h
    have hne := val_ne_of_notMem hd
    -- the other axes are not touched
    have hother : ∀ e ∈ ds, (view.set d (boxInterval b d))[(e : Nat)]? = view[(e : Nat)]? :=
      fun e he => List.getElem?_set_ne (hne e he).symm
    obtain ⟨hlen, hsliced, hinside, hrest⟩ := ih hnodup
      (fun e he w hw => hfull e (List.mem_cons_of_mem _ he) w (hother e he ▸ hw)) h
    rw [List.length_set] at hlen
    refine ⟨hlen, fun e he => ?_, fun e he => ?_, fun j hj => ?_⟩
    · rcases List.mem_cons.mp he with rfl | hmem
      · rw [hrest _ hne]
        exact List.getElem?_set_self (List.getElem?_eq_some_iff.mp hv).1
      · exact hsliced e hmem
    · rcases List.mem_cons.mp he with rfl | hmem
      · exact ⟨v, hv, hin⟩
      · rw [← hother e hmem]
        exact hinside e hmem
    · rw [hrest j fun e he => hj e (List.mem_cons_of_mem _ he)]
      exact List.getElem?_set_ne (hj d List.mem_cons_self)

/-- A full interval begins at zero, and leaves nothing out. -/
theorem full_of_getElem {extents : List Nat} {j : Nat} {v : Interval}
    (h : (extents.map Interval.full)[j]? = some v) : v.origin = 0 ∧ v.step = 1 := by
  rw [List.getElem?_map, Option.map_eq_some_iff] at h
  obtain ⟨e, -, rfl⟩ := h
  exact ⟨rfl, rfl⟩

/-- **The domain that `read` asks for**: the box on the leading dimensions, all of the last one. -/
theorem restrict_some {extents : List Nat} {last k : Nat} (hk : k ≤ maxRank) (hrank : b.rank = k)
    (hlen : extents.length = k)
    (h : restrict (extents ++ [last]) (some b) = some view) :
    view = (dims b.rank).map (boxInterval b) ++ [Interval.full last] := by
  obtain ⟨hview, hsliced, -, hrest⟩ := foldlM_sliceStep (Grib2.nodup_dims _)
    (fun _ _ _ hv => full_of_getElem hv) h
  rw [List.length_map, List.length_append, hlen, List.length_singleton] at hview
  have hdims : (dims b.rank).length = k := by
    rw [hrank, length_dims hk]
  refine List.ext_getElem? fun j => ?_
  -- the sliced dimensions, the last one, and the places past the end
  rcases Nat.lt_trichotomy j k with hlt | rfl | hgt
  · have hj := getElem?_dims hk hlt
    rw [← hrank] at hj
    rw [List.getElem?_append_left (by simpa [hdims] using hlt), List.getElem?_map, hj]
    exact hsliced _ (List.mem_of_getElem? hj)
  · have hnone : ∀ d ∈ dims b.rank, (d : Nat) ≠ j := fun d hd => by
      have := mem_dims.mp hd
      omega
    -- the box names no dimension `k`, so it keeps its full interval
    rw [hrest j hnone, List.getElem?_append_right (by simp [hdims])]
    simp [hlen, hdims]
  · rw [List.getElem?_eq_none (by omega), List.getElem?_eq_none (by simp [hdims]; omega)]

/-- Slices that stay inside succeed. -/
theorem exists_foldlM_sliceStep (hnodup : ds.Nodup)
    (hin : ∀ d ∈ ds, ∃ v, view[(d : Nat)]? = some v ∧ (boxInterval b d).last < v.size) :
    ∃ view', ds.foldlM (sliceStep b) view = some view' := by
  induction ds generalizing view with
  | nil => exact ⟨view, rfl⟩
  | cons d ds ih =>
    obtain ⟨hd, hnodup⟩ := List.nodup_cons.mp hnodup
    obtain ⟨v, hv, hinside⟩ := hin d List.mem_cons_self
    have hstep : sliceStep b view d = some (view.set d ⟨v.index (boxInterval b d).origin,
        (boxInterval b d).size, v.step * (boxInterval b d).step⟩) := by
      rw [sliceStep, translateSizedInterval, hv, Option.bind_some, if_pos (.inr hinside)]
    rw [List.foldlM_cons, hstep]
    -- the later dimensions are other places of the view
    refine ih hnodup fun e he => ?_
    rw [List.getElem?_set_ne (val_ne_of_notMem hd e he).symm]
    exact hin e (List.mem_cons_of_mem _ he)

end Slices

/-! ### Alignment -/

/-- A source with one dimension more than the target. -/
theorem Aligns.cons {lead : Nat} {source target : List Nat} (hlen : source.length = target.length)
    (h : Aligns (lead :: source) target) :
    lead = 1 ∧ List.Forall₂ (fun s t => s = t ∨ s = 1) source target := by
  obtain ⟨hlead, hrest⟩ := h
  have hdiff : (lead :: source).length - target.length = 1 := by simp [hlen]
  have hdiff' : target.length - (lead :: source).length = 0 := by simp [hlen]
  rw [hdiff] at hlead hrest
  rw [hdiff', List.drop_zero] at hrest
  exact ⟨hlead lead (by simp), hrest⟩

/-- Extents that are aligned with themselves, one place shifted, are all one. -/
theorem ones_of_shifted {sizes : List Nat} {last lead : Nat} (hlead : lead = 1)
    (h : List.Forall₂ (fun s t => s = t ∨ s = 1) (sizes ++ [last]) (lead :: sizes)) :
    (∀ n ∈ sizes, n = 1) ∧ last = 1 := by
  induction sizes generalizing lead with
  | nil =>
    obtain ⟨hlast, -⟩ := List.forall₂_cons.mp h
    exact ⟨by simp, by omega⟩
  | cons n sizes ih =>
    obtain ⟨hn, h⟩ := List.forall₂_cons.mp h
    -- the leading size is one, and each size is the one before it or one
    have hn : n = 1 := by omega
    obtain ⟨hsizes, hlast⟩ := ih hn h
    refine ⟨fun m hm => ?_, hlast⟩
    rcases List.mem_cons.mp hm with rfl | hm
    · exact hn
    · exact hsizes m hm

/-- Indices that are the same one place shifted are all zero, when the last one is. -/
theorem zeros_of_shifted {is : List Nat} {t : Nat} (h : is ++ [0] = t :: is) :
    t = 0 ∧ ∀ i ∈ is, i = 0 := by
  induction is generalizing t with
  | nil => simpa using h.symm
  | cons i is ih =>
    have h : i :: (is ++ [0]) = t :: i :: is := h
    obtain ⟨rfl, hrest⟩ := List.cons.inj h
    obtain ⟨hi, his⟩ := ih hrest
    refine ⟨hi, fun j hj => ?_⟩
    rcases List.mem_cons.mp hj with rfl | hj
    · exact hi
    · exact his j hj

/-! ### The two functions -/

section Agreement

variable {ts : TensorStore} {dtype : Dtype} {info : VariableInfo} {capacity : Nat} {t : Int}
  {lead : Nat} {rest : List Nat}

/-- A store with a time axis, as `describe_variable` reports it. -/
theorem describeVariable_cons (hpos : 1 ≤ rest.length) (hle : rest.length ≤ maxRank)
    (h : describeVariable dtype (lead :: rest) = some info) :
    info.dtype = some dtype ∧ info.shape.rank = rest.length ∧ info.shape.extentList = rest ∧
      info.totalTimesteps = if 0 < lead then (lead : Int) else 1 := by
  have hguard : ¬ ((lead :: rest).length < 1 ∨ rest.length < 1 ∨ maxRank < rest.length) := by
    simp only [List.length_cons]
    omega
  have htwo : 2 ≤ rest.length + 1 := by omega
  simp only [describeVariable, List.length_cons, if_pos htwo, Nat.add_sub_cancel] at h hguard
  rw [if_neg hguard] at h
  obtain rfl := Option.some.inj h
  refine ⟨rfl, rfl, ?_, ?_⟩
  · exact extentList_described (lead :: rest) 1 hle (by simp) fun _ => 0
  · simp

/-- The target of `read` has the extents of what is wanted. -/
theorem sizes_wanted (lead : Nat) (t : Int) (bbox : Option Bbox)
    (hshape : info.shape.extentList = rest) :
    sizes (wanted (lead :: rest) t bbox) = 1 :: selectedExtents info.shape bbox := by
  cases bbox with
  | none =>
    show 1 :: sizes (rest.map Interval.full) = 1 :: info.shape.extentList
    rw [hshape, sizes, List.map_map]
    exact congrArg _ (List.map_id rest)
  | some b =>
    show 1 :: sizes ((dims b.rank).map (boxInterval b)) = 1 :: b.extentList
    rw [sizes, List.map_map]
    rfl

/-- `read` into a buffer that is large enough. -/
theorem read_eq (content : List Nat → List UInt8) (extents : List Nat) (bbox : Option Bbox)
    (hmem : capacity < 2 ^ 64)
    (hcap : (selectedExtents info.shape bbox).prod * elementSize info.dtype ≤ capacity) :
    read ts content extents info capacity t bbox =
      (restrict extents bbox).bind fun view =>
        (ts.read content view (selectedExtents info.shape bbox)).map fun out =>
          (out, (selectedExtents info.shape bbox).prod * elementSize info.dtype) := by
  have htotal : totalBytes info bbox = _ :=
    u64_prod_mul (l := selectedExtents info.shape bbox) (m := elementSize info.dtype) (by omega)
  rw [read, tryRead, toOption_readInto, htotal, if_neg (by omega), transfer, Option.map_bind]
  rfl

/-- The sizes of the full view. -/
theorem sizes_full (extents : List Nat) : sizes (extents.map Interval.full) = extents := by
  rw [sizes, List.map_map]
  exact List.map_id extents

/-- A read without a box. -/
theorem agrees_whole_iff (hshape : info.shape.extentList = rest)
    (htotal : info.totalTimesteps = if 0 < lead then (lead : Int) else 1)
    (ht : 0 ≤ t ∧ t < info.totalTimesteps) (hmem : capacity < 2 ^ 64)
    (hcap : (selectedExtents info.shape none).prod * elementSize info.dtype ≤ capacity) :
    Agrees ts (lead :: rest) info capacity t none ↔ lead = 1 := by
  have htarget : selectedExtents info.shape none = rest := hshape
  have hwanted := sizes_wanted lead t none hshape
  unfold Agrees
  simp only [read_eq _ _ none hmem hcap, hwanted, List.prod_cons, Nat.one_mul]
  show (∀ content, (ts.read content ((lead :: rest).map Interval.full) _).map _ = _) ↔ _
  constructor
  -- the copy aligns the leading axis with one that the target lacks
  · intro h
    obtain ⟨out, hread, -⟩ := Option.map_eq_some_iff.mp (h fun _ => [])
    have haligned := ts.aligned _ _ _ _ hread
    rw [sizes_full, htarget] at haligned
    exact (haligned.cons rfl).1
  -- a leading axis of one has one timestep
  · rintro rfl content
    have ht0 : t = 0 := by
      rw [htotal, if_pos Nat.one_pos] at ht
      omega
    have hcopies := ts.copies content ((1 :: rest).map Interval.full) rest 1 (sizes_full _)
    rw [htarget, hcopies, ht0]
    rfl

/-- A view of extents one has one element. -/
theorem elements_of_ones {view : List Interval} (h : ∀ v ∈ view, v.size = 1)
    (content : List Nat → List UInt8) :
    elements content view = [content (view.map (·.origin))] := by
  -- a view of sizes one has a single cell
  have hcells : cells (sizes view) = [view.map fun _ => 0] := by
    induction view with
    | nil => rfl
    | cons v view ih =>
      have hv := h v List.mem_cons_self
      have hrest := ih fun w hw => h w (List.mem_cons_of_mem _ hw)
      show (List.range v.size).flatMap (fun i => (cells (sizes view)).map (i :: ·)) = _
      rw [hv, hrest]
      rfl
  have hindex : List.zipWith Interval.index view (view.map fun _ => 0) =
      view.map (·.origin) := by
    rw [List.zipWith_map_right, List.zipWith_self]
    exact List.map_congr_left fun v _ => by rw [Interval.index, Nat.zero_mul, Nat.add_zero]
  rw [elements, hcells, List.map_singleton, hindex]

/-- Cells that no content tells apart are one cell. -/
theorem eq_of_content {is js : List Nat} (h : ∀ content : List Nat → List UInt8,
    [content is] = [content js]) : is = js := by
  have hmark := List.head_eq_of_cons_eq (h fun ks => if ks = is then [1] else [])
  by_contra hne
  rw [if_pos rfl, if_neg (Ne.symm hne)] at hmark
  cases hmark

variable {b : Bbox}

/-- The sizes of the view of a box. -/
theorem sizes_box (b : Bbox) : sizes ((dims b.rank).map (boxInterval b)) = b.extentList := by
  rw [sizes, List.map_map]
  rfl

/-- A read with a box, once the box is known to select one element of a store of one last index. -/
theorem read_first {last : Nat} {content : List Nat → List UInt8}
    (hones : ∀ n ∈ b.extentList, n = 1) (hlast : last = 1) :
    ts.read content ((dims b.rank).map (boxInterval b) ++ [Interval.full last]) b.extentList =
      some [content (((dims b.rank).map fun d => (b.offsets d).toNat) ++ [0])] := by
  have hsize : ∀ v ∈ (dims b.rank).map (boxInterval b) ++ [Interval.full last], v.size = 1 := by
    intro v hv
    rcases List.mem_append.mp hv with hv | hv
    · obtain ⟨d, hd, rfl⟩ := List.mem_map.mp hv
      exact hones _ (List.mem_map.mpr ⟨d, hd, rfl⟩)
    · rw [List.mem_singleton.mp hv]
      exact hlast
  -- all sizes are one, so the trailing one may as well stand first
  have hshift : b.extentList ++ [1] = 1 :: b.extentList := by
    rw [List.eq_replicate_of_mem hones, ← List.replicate_succ, List.replicate_succ']
  have hsizes : sizes ((dims b.rank).map (boxInterval b) ++ [Interval.full last]) =
      List.replicate 1 1 ++ b.extentList := by
    rw [sizes, List.map_append, ← sizes, sizes_box, hlast]
    exact hshift
  rw [ts.copies _ _ _ _ hsizes, elements_of_ones hsize, List.map_append, List.map_map]
  rfl

/-- The one element that a box of ones asks for. -/
theorem elements_wanted {extents : List Nat} {content : List Nat → List UInt8}
    (hones : ∀ n ∈ b.extentList, n = 1) :
    elements content (wanted extents t (some b)) =
      [content (t.toNat :: (dims b.rank).map fun d => (b.offsets d).toNat)] := by
  have hsize : ∀ v ∈ wanted extents t (some b), v.size = 1 := by
    intro v hv
    rcases List.mem_cons.mp hv with rfl | hv
    · rfl
    · obtain ⟨d, hd, rfl⟩ := List.mem_map.mp hv
      exact hones _ (List.mem_map.mpr ⟨d, hd, rfl⟩)
  rw [elements_of_ones hsize]
  show [content (t.toNat :: List.map _ (List.map _ _))] = _
  rw [List.map_map]
  rfl

/-- The last dimension of the store is the last of the reported ones. -/
theorem exists_last (lead : Nat) (rest : List Nat) :
    ∃ init last, lead :: rest = init ++ [last] ∧ init.length = rest.length ∧
      (lead :: rest).getLastD 0 = last := by
  refine ⟨(lead :: rest).dropLast, (lead :: rest).getLast (List.cons_ne_nil _ _), ?_, ?_, ?_⟩
  · rw [List.dropLast_append_getLast]
  · simp
  · rw [List.getLastD_eq_getLast?, List.getLast?_eq_getLast_of_ne_nil (List.cons_ne_nil _ _)]
    rfl

/-- A read that agrees is of one of the two kinds. -/
theorem degenerate_of_agrees (hpos : 1 ≤ rest.length) (hle : rest.length ≤ maxRank)
    (hshape : info.shape.extentList = rest) (hrank : b.rank = rest.length)
    (hbox : ∀ d ∈ dims b.rank, 0 ≤ b.offsets d ∧ 1 ≤ b.extents d) (ht : 0 ≤ t)
    (hmem : capacity < 2 ^ 64)
    (hcap : b.extentList.prod * elementSize info.dtype ≤ capacity)
    (h : Agrees ts (lead :: rest) info capacity t (some b)) :
    Degenerate (lead :: rest) t (some b) := by
  obtain ⟨init, last, hsplit, hinit, hlast⟩ := exists_last lead rest
  have hread : ∀ content, (restrict (lead :: rest) (some b)).bind (fun view =>
      (ts.read content view b.extentList).map fun out =>
        (out, b.extentList.prod * elementSize info.dtype)) =
      some (elements content (wanted (lead :: rest) t (some b)),
        b.extentList.prod * elementSize info.dtype) := by
    intro content
    have hcontent := h content
    rw [read_eq _ _ (some b) hmem hcap, sizes_wanted lead t (some b) hshape, List.prod_cons,
      Nat.one_mul] at hcontent
    exact hcontent
  obtain ⟨view, hview, hsome⟩ := Option.bind_eq_some_iff.mp (hread fun _ => [])
  obtain ⟨out, hout, -⟩ := Option.map_eq_some_iff.mp hsome
  have hviewEq := restrict_some hle hrank hinit (hsplit ▸ hview)
  have haligned := ts.aligned _ _ _ _ hout
  -- the box is aligned with itself, one place shifted
  have hones : (∀ n ∈ b.extentList, n = 1) ∧ last = 1 := by
    rw [hviewEq, sizes, List.map_append, ← sizes, sizes_box] at haligned
    have hlen : b.extentList.length = rest.length := by
      rw [Bbox.extentList, List.length_map, hrank, length_dims hle]
    cases hns : b.extentList with
    | nil =>
      rw [hns] at hlen
      simp only [List.length_nil] at hlen
      omega
    | cons n ns =>
      rw [hns] at haligned
      obtain ⟨hn, hshifted⟩ := Aligns.cons (by simp) haligned
      obtain ⟨hns, hlast⟩ := ones_of_shifted hn hshifted
      exact ⟨List.forall_mem_cons.mpr ⟨hn, hns⟩, hlast⟩
  -- so that one element is read, at indices one place shifted
  have hzeros : t.toNat = 0 ∧ ∀ i ∈ (dims b.rank).map (fun d => (b.offsets d).toNat), i = 0 := by
    refine zeros_of_shifted (eq_of_content fun content => ?_)
    have hcontent := hread content
    rw [hview, hviewEq, Option.bind_some, read_first hones.1 hones.2, elements_wanted hones.1]
      at hcontent
    exact (Prod.mk.inj (Option.some.inj hcontent)).1
  have hfirst : ∀ d ∈ dims b.rank, b.offsets d = 0 ∧ b.extents d = 1 := by
    intro d hd
    obtain ⟨hoffset, hextent⟩ := hbox d hd
    have hzero := hzeros.2 _ (List.mem_map.mpr ⟨d, hd, rfl⟩)
    have hone := hones.1 _ (List.mem_map.mpr ⟨d, hd, rfl⟩)
    omega
  refine ⟨by omega, ?_, hlast.trans hones.2, hfirst⟩
  -- the leading dimension was sliced
  have hd : (⟨0, by decide⟩ : Fin maxRank) ∈ dims b.rank := mem_dims.mpr (by simp; omega)
  obtain ⟨-, -, hinside, -⟩ := foldlM_sliceStep (Grib2.nodup_dims _)
    (fun _ _ _ hv => full_of_getElem hv) hview
  obtain ⟨v, hv, hslice⟩ := hinside _ hd
  obtain rfl : Interval.full lead = v := Option.some.inj hv
  have hsize : (boxInterval b ⟨0, by decide⟩).size = 1 := hones.1 _ (List.mem_map.mpr ⟨_, hd, rfl⟩)
  have hlead : (boxInterval b ⟨0, by decide⟩).last < lead :=
    hslice.resolve_left (hsize ▸ Nat.one_ne_zero)
  show 1 ≤ lead
  omega

theorem agrees_of_degenerate (hle : rest.length ≤ maxRank)
    (hshape : info.shape.extentList = rest) (hrank : b.rank = rest.length)
    (hrest : ∀ e ∈ rest, 0 < e) (hmem : capacity < 2 ^ 64)
    (hcap : b.extentList.prod * elementSize info.dtype ≤ capacity)
    (h : Degenerate (lead :: rest) t (some b)) :
    Agrees ts (lead :: rest) info capacity t (some b) := by
  obtain ⟨rfl, hlead, hlastOne, hfirst⟩ := h
  obtain ⟨init, last, hsplit, hinit, hlast⟩ := exists_last lead rest
  -- the box is one element, at the origin
  have hones : ∀ n ∈ b.extentList, n = 1 := by
    intro n hn
    obtain ⟨d, hd, rfl⟩ := List.mem_map.mp hn
    rw [(hfirst d hd).2]
    rfl
  have hzeros : ((dims b.rank).map fun d => (b.offsets d).toNat) =
      List.replicate (dims b.rank).length 0 := by
    rw [← List.map_const']
    exact List.map_congr_left fun d hd => by rw [(hfirst d hd).1]; rfl
  have hpositive : ∀ e ∈ lead :: rest, 0 < e := List.forall_mem_cons.mpr ⟨hlead, hrest⟩
  -- which is inside every axis
  have hin : ∀ d ∈ dims b.rank, ∃ v, ((lead :: rest).map Interval.full)[(d : Nat)]? = some v ∧
      (boxInterval b d).last < v.size := by
    intro d hd
    have hlt : (d : Nat) < (lead :: rest).length := by
      have := mem_dims.mp hd
      simp only [List.length_cons]
      omega
    refine ⟨Interval.full (lead :: rest)[(d : Nat)], ?_, ?_⟩
    · rw [List.getElem?_map, List.getElem?_eq_getElem hlt]
      rfl
    show (b.offsets d).toNat + ((b.extents d).toNat - 1) * _ < (lead :: rest)[(d : Nat)]
    rw [(hfirst d hd).1, (hfirst d hd).2]
    simpa using hpositive _ (List.getElem_mem hlt)
  obtain ⟨view, hview⟩ := exists_foldlM_sliceStep (Grib2.nodup_dims b.rank) hin
  have hview : restrict (lead :: rest) (some b) = some view := hview
  have hviewEq := restrict_some hle hrank hinit (hsplit ▸ hview)
  -- the driver slices the leading axes and the caller means the trailing ones, but both read the
  -- first element
  intro content
  rw [read_eq _ _ (some b) hmem hcap, sizes_wanted lead 0 (some b) hshape, List.prod_cons,
    Nat.one_mul, hview, hviewEq, Option.bind_some]
  show (ts.read _ _ b.extentList).map _ = _
  rw [read_first hones (hlast.symm.trans hlastOne), elements_wanted hones, hzeros]
  show some ([content (List.replicate _ 0 ++ [0])], _) =
    some ([content (0 :: List.replicate _ 0)], _)
  rw [← List.replicate_succ, ← List.replicate_succ']

/-- **The time axis.** Of the reads that `describe_variable` allows, `read` serves exactly the
degenerate ones. -/
theorem read_agrees_iff (ts : TensorStore) (dtype : Dtype) (extents : List Nat)
    (info : VariableInfo) (capacity : Nat) (t : Int) (bbox : Option Bbox)
    (hrank : 2 ≤ extents.length ∧ extents.length ≤ 8)
    (hinfo : describeVariable dtype extents = some info) (ht : 0 ≤ t ∧ t < info.totalTimesteps)
    (hbox : validateBbox bbox info.shape = .ok) (hmem : capacity < 2 ^ 64)
    (hcap : (selectedExtents info.shape bbox).prod * elementSize info.dtype ≤ capacity) :
    Agrees ts extents info capacity t bbox ↔ Degenerate extents t bbox := by
  cases extents with
  | nil => simp at hrank
  | cons lead rest =>
    rw [List.length_cons] at hrank
    have hle : rest.length ≤ maxRank := by
      show rest.length ≤ 7
      omega
    obtain ⟨-, hreported, hshape, htotal⟩ := describeVariable_cons (by omega) hle hinfo
    cases bbox with
    | none => exact agrees_whole_iff hshape htotal ht hmem hcap
    | some b =>
      obtain ⟨hb, hpasses⟩ := validateBbox_ok_iff.mp hbox
      have hb := hb.trans hreported
      constructor
      -- if it agrees, the box is degenerate, and conversely
      · refine degenerate_of_agrees (by omega) hle hshape hb (fun d hd => ?_) ht.1 hmem hcap
        obtain ⟨-, hoffset, hextent, -⟩ := hpasses d hd
        exact ⟨hoffset, hextent⟩
      · intro h
        refine agrees_of_degenerate hle hshape hb (fun e he => ?_) hmem hcap h
        rw [← hshape] at he
        obtain ⟨d, hd, rfl⟩ := List.mem_map.mp he
        have hd : d ∈ dims b.rank := by rwa [hb, ← hreported]
        obtain ⟨hoffset, hextent⟩ := h.2.2.2 d hd
        have hlast := (hpasses d hd).2.2.2
        -- an axis of the box has an element, so that it is not empty
        have hzero : b.last d = 0 := by rw [Bbox.last, hoffset, hextent]; omega
        rw [hzero, i64_of_isInt64 ⟨by decide, by decide⟩] at hlast
        omega

end Agreement

/-- Leading ones do not count. -/
theorem aligns_replicate (n : Nat) (target : List Nat) :
    Aligns (List.replicate n 1 ++ target) target := by
  have hlen : (List.replicate n 1 ++ target).length - target.length = n := by simp
  have hlen' : target.length - (List.replicate n 1 ++ target).length = 0 := by simp
  unfold Aligns
  rw [hlen, hlen', List.drop_zero]
  refine ⟨fun e he => ?_, ?_⟩
  · rw [List.take_left' List.length_replicate] at he
    exact (List.mem_replicate.mp he).2
  · rw [List.drop_left' List.length_replicate]
    exact List.forall₂_same.mpr fun _ _ => .inl rfl

/-- The part of TensorStore that does not broadcast. -/
def plainTensorStore : TensorStore where
  read content view target :=
    if sizes view = List.replicate ((sizes view).length - target.length) 1 ++ target then
      some (elements content view)
    else none
  copies := by
    intro content view target n h
    have hn : (sizes view).length - target.length = n := by
      rw [h, List.length_append, List.length_replicate, Nat.add_sub_cancel]
    rw [hn, if_pos h]
  aligned := by
    intro content view target out h
    split at h
    · next hsizes =>
      rw [hsizes]
      exact aligns_replicate _ _
    · cases h

/-- One timestep of four bytes, read whole. -/
theorem read_agrees_single : ∃ info, describeVariable .u8 [1, 4] = some info ∧
    Agrees plainTensorStore [1, 4] info 4 0 none :=
  ⟨_, rfl, (read_agrees_iff plainTensorStore .u8 [1, 4] _ 4 0 none (by decide) rfl (by decide) rfl
    (by decide) (by decide)).mpr rfl⟩

/-- The first of a row. -/
def firstOfRow : Bbox := ⟨1, fun _ => 0, fun _ => 1, fun _ => 1⟩

/-- Two timesteps of one byte: the read of the second one delivers the first. -/
theorem second_timestep_unread : ∃ info, describeVariable .u8 [2, 1] = some info ∧
    validateBbox (some firstOfRow) info.shape = .ok ∧
    ∀ ts, (∀ content, read ts content [2, 1] info 1 1 (some firstOfRow) =
        some ([content [0, 0]], 1)) ∧
      ¬ Agrees ts [2, 1] info 1 1 (some firstOfRow) := by
  obtain ⟨info, hinfo⟩ : ∃ info, describeVariable .u8 [2, 1] = some info := ⟨_, rfl⟩
  obtain ⟨hdtype, hrank, hshape, -⟩ := describeVariable_cons (by decide) (by decide) hinfo
  have hcap : firstOfRow.extentList.prod * elementSize info.dtype ≤ 1 := by
    rw [hdtype]
    decide
  have hok : validateBbox (some firstOfRow) info.shape = .ok := by
    obtain rfl := Option.some.inj hinfo
    decide
  refine ⟨info, hinfo, hok, fun ts => ?_⟩
  -- the first timestep is read as it should be
  have hfirst : Agrees ts [2, 1] info 1 0 (some firstOfRow) :=
    agrees_of_degenerate (by decide) hshape rfl (by decide) (by decide) hcap
      ⟨rfl, by decide, rfl, by decide⟩
  -- and the second one in the same way, for the timestep is not looked at
  have hread : ∀ content, read ts content [2, 1] info 1 1 (some firstOfRow) =
      some ([content [0, 0]], 1) := by
    intro content
    have hcontent := hfirst content
    rw [hdtype] at hcontent
    exact hcontent
  refine ⟨hread, fun h => ?_⟩
  -- a content that differs in the two timesteps tells them apart
  have hsame := (hread fun is => if is = [0, 0] then [1] else []).symm.trans
    (h fun is => if is = [0, 0] then [1] else [])
  rw [hdtype] at hsame
  revert hsame
  decide

end Amio.Zarr
