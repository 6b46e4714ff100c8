import Amio.Drivers.NetCdfDims

/-!
# Variables that are written again

The shape of a variable is fixed by the write that defines it, and the block of a write by the shape
of that write alone: `NetCDF_Driver::write` looks a variable up, and asks neither for its rank nor
for the lengths of its dimensions before it calls `nc_put_vara` (`read` does ask for the rank). So
whether a block covers its variable is a matter of the writes that were made before, of which any
may have failed at any point and left behind what it had defined until then (`rewrites_iff`).

`attempt` is `write` with the file that it leaves also when it throws. The library may refuse
`NcCall.define` twice, before the dimensions are defined and, for attributes, filters and the end of
the define mode, after the variable is.
-/

namespace Amio.NetCdf

namespace NcFile

variable {lib : Library} {f f' g : NcFile} {name : List UInt8} {rank d : Nat}
  {lens ids es es' : List Nat} {added : List NcDim} {v : NcVar}

/-! ### What a write leaves -/

/-- The loop over the dimensions of a new variable, with the file that it leaves when `nc_def_dim`
fails. -/
def leaveDims (lib : Library) (name : List UInt8) (rank : Nat) :
    NcFile → Nat → List Nat → NcFile × Option (List Nat)
  | f, _, [] => (f, some [])
  | f, d, len :: lens =>
    match f.defineDim lib name rank d len with
    -- the dimensions before it stay
    | none => (f, none)
    | some p =>
      let q := leaveDims lib name rank p.1 (d + 1) lens
      (q.1, q.2.map (p.2 :: ·))

/-- The definition of a variable by its first write, with the file that it leaves. -/
def leaveDefine (lib : Library) (f : NcFile) (m : VarMeta)
    (attributes : List UInt8 → Option AttrValue) : NcFile × Option NcVar :=
  let extents := m.shape.extentList
  if lib.allows f (.define m.name) then
    match leaveDims lib m.name extents.length f 0 extents with
    | (f', none) => (f', none)
    | (f', some ids) =>
      match m.dtype with
      -- `dtype_to_nc_type` throws
      | none => (f', none)
      | some dtype =>
        match f'.defVar lib m.name (dtypeToNcType dtype) ids attributes with
        | none => (f', none)
        | some (g, v) => (g, if lib.allows g (.define m.name) then some v else none)
  else (f, none)

/-- An axis adds dimensions only. -/
theorem defineDim_extends {len id : Nat} (h : f.defineDim lib name rank d len = some (f', id)) :
    ∃ added, f.Extends f' added := by
  unfold defineDim at h
  split at h
  · obtain ⟨rfl, -⟩ := Prod.mk.inj (Option.some.inj h)
    exact ⟨[], .refl f⟩
  · split at h
    · obtain ⟨rfl, -⟩ := Prod.mk.inj (Option.some.inj h)
      exact ⟨[], .refl f⟩
    · exact ⟨_, (defDim_spec h).2⟩

theorem leaveDims_extends (lib : Library) (name : List UInt8) (rank : Nat) (f : NcFile) (d : Nat)
    (lens : List Nat) : ∃ added, f.Extends (leaveDims lib name rank f d lens).1 added := by
  induction lens generalizing f d with
  | nil => exact ⟨[], .refl f⟩
  | cons len lens ih =>
    unfold leaveDims
    split
    · exact ⟨[], .refl f⟩
    · next p hdim =>
      obtain ⟨added, hext⟩ := defineDim_extends hdim
      obtain ⟨added', hext'⟩ := ih p.1 (d + 1)
      exact ⟨_, hext.trans hext'⟩

/-- A loop that ends is the loop of `write`. -/
theorem defineDims_of_leaveDims (h : leaveDims lib name rank f d lens = (f', some ids)) :
    defineDims lib name rank f d lens = some (f', ids) := by
  induction lens generalizing f d ids with
  | nil =>
    obtain ⟨rfl, hids⟩ := Prod.mk.inj h
    rw [← Option.some.inj hids]
    rfl
  | cons len lens ih =>
    unfold leaveDims at h
    split at h
    · cases (Prod.mk.inj h).2
    · next p hdim =>
      obtain ⟨hfile, hids⟩ := Prod.mk.inj h
      obtain ⟨ids', hids', rfl⟩ := Option.map_eq_some_iff.mp hids
      have hrest := ih (Prod.ext hfile hids')
      rw [defineDims, hdim, Option.bind_some, hrest, Option.map_some]

/-- **What the definition of a variable leaves**: more dimensions, and perhaps the variable, whose
dimensions are then those that the loop came out with. -/
structure Left (lib : Library) (f : NcFile) (m : VarMeta) (g : NcFile) : Prop where
  dims : ∃ added, g.dims = f.dims ++ added
  others : ∀ name, name ≠ m.name → g.vars name = f.vars name
  defined : ∀ v, g.vars m.name = some v → f.vars m.name = some v ∨
    ∃ f', defineDims lib m.name m.shape.extentList.length f 0 m.shape.extentList =
      some (f', v.dimids) ∧ g.dims = f'.dims

theorem Left.of_extends {m : VarMeta} (h : f.Extends f' added) : Left lib f m f' :=
  ⟨⟨added, h.1⟩, fun _ _ => by rw [h.2], fun v hv => .inl (by rw [← h.2]; exact hv)⟩

/-- What a definition leaves, also if it fails. -/
theorem leaveDefine_spec (lib : Library) (f : NcFile) (m : VarMeta)
    (attributes : List UInt8 → Option AttrValue) :
    Left lib f m (leaveDefine lib f m attributes).1 ∧
      ∀ v, (leaveDefine lib f m attributes).2 = some v →
        (leaveDefine lib f m attributes).1.vars m.name = some v := by
  unfold leaveDefine
  dsimp only
  split
  · obtain ⟨added, hext⟩ := leaveDims_extends lib m.name m.shape.extentList.length f 0
      m.shape.extentList
    rcases hdims : leaveDims lib m.name m.shape.extentList.length f 0 m.shape.extentList
      with ⟨f', _ | ids⟩
    · rw [hdims] at hext
      exact ⟨.of_extends hext, nofun⟩
    · rw [hdims] at hext
      dsimp only
      split
      -- until `nc_def_var` there are only new dimensions
      · exact ⟨.of_extends hext, nofun⟩
      · next dtype _ =>
        split
        · exact ⟨.of_extends hext, nofun⟩
        · next g v hvar =>
          obtain ⟨hg, hothers, -, hids⟩ := defVar_spec hvar
          -- from then on the variable is there, whether the rest succeeds or not
          have hself : g.vars m.name = some v := by
            unfold defVar at hvar
            split at hvar
            · obtain ⟨rfl, rfl⟩ := Prod.mk.inj (Option.some.inj hvar)
              exact Function.update_self _ _ _
            · cases hvar
          refine ⟨⟨⟨added, hg.trans hext.1⟩, fun name hne => ?_, fun v' hv' => .inr ?_⟩,
            fun v' hv' => ?_⟩
          · rw [hothers name hne, hext.2]
          · obtain rfl := Option.some.inj (hself.symm.trans hv')
            rw [hids]
            exact ⟨f', defineDims_of_leaveDims hdims, hg⟩
          · dsimp only at hv'
            split at hv'
            · rw [← hv']
              exact hself
            · cases hv'
  · exact ⟨.of_extends (.refl f), nofun⟩

/-! ### Dimensions that grow -/

/-- The dimensions `ds` with some more, and with unlimited ones of other lengths. -/
def Grown (ds ds' : List NcDim) : Prop :=
  ∀ (id : Nat) (D : NcDim), ds[id]? = some D → ∃ D' : NcDim, ds'[id]? = some D' ∧
    D'.unlimited = D.unlimited ∧ (D.unlimited = false → D'.len = D.len)

theorem Grown.refl (ds : List NcDim) : Grown ds ds := fun _ D hD => ⟨D, hD, rfl, fun _ => rfl⟩

theorem Grown.trans {ds ds' ds'' : List NcDim} (h : Grown ds ds') (h' : Grown ds' ds'') :
    Grown ds ds'' := by
  intro id D hD
  obtain ⟨D', hD', hunlim, hlen⟩ := h id D hD
  obtain ⟨D'', hD'', hunlim', hlen'⟩ := h' id D' hD'
  exact ⟨D'', hD'', hunlim'.trans hunlim, fun hfixed =>
    (hlen' (hunlim.trans hfixed)).trans (hlen hfixed)⟩

theorem Grown.append (ds added : List NcDim) : Grown ds (ds ++ added) := fun _ D hD =>
  ⟨D, by rw [List.getElem?_append_left (List.getElem?_eq_some_iff.mp hD).1, hD], rfl, fun _ => rfl⟩

theorem Grown.grow (ds : List NcDim) (p : Nat × Nat) : Grown ds (grow ds p) := by
  intro id D hD
  refine ⟨if p.1 = id ∧ D.unlimited = true then { D with len := max D.len p.2 } else D, ?_, ?_, ?_⟩
  · rw [NcFile.grow, List.getElem?_modify, hD]
    by_cases hid : p.1 = id
    · by_cases hunlim : D.unlimited = true <;> simp [hid, hunlim]
    · simp [hid]
  · split <;> rfl
  · intro hfixed
    rw [if_neg (by simp [hfixed])]

theorem Grown.foldl (ps : List (Nat × Nat)) (ds : List NcDim) :
    Grown ds (ps.foldl NcFile.grow ds) := by
  induction ps generalizing ds with
  | nil => exact .refl ds
  | cons p ps ih => exact (Grown.grow ds p).trans (ih _)

/-! ### Blocks and variables -/

/-- A block covers the dimensions: it has an entry for each, and along a dimension of fixed length
this is the length. -/
def Covers (f : NcFile) (ids count : List Nat) : Prop :=
  count.length = ids.length ∧ ∀ k id n : Nat, ids[k]? = some id → count[k]? = some n →
    f.inqUnlim id = true ∨ f.inqDimlen id = n

/-- The dimensions are there and are covered by a block of extents `es`. -/
structure Fits (f : NcFile) (ids es : List Nat) : Prop where
  covers : f.Covers ids es
  inside : ∀ id ∈ ids, id < f.dims.length

/-- A variable fits its dimensions after they have grown. -/
theorem Fits.grown (h : f.Fits ids es) (hg : Grown f.dims g.dims) : g.Fits ids es := by
  have hget : ∀ id ∈ ids, ∃ D D' : NcDim, f.dims[id]? = some D ∧ g.dims[id]? = some D' ∧
      D'.unlimited = D.unlimited ∧ (D.unlimited = false → D'.len = D.len) := by
    intro id hid
    have hD := List.getElem?_eq_getElem (h.inside id hid)
    obtain ⟨D', hD'⟩ := hg id _ hD
    exact ⟨_, D', hD, hD'⟩
  refine ⟨⟨h.covers.1, fun k id n hid hn => ?_⟩, fun id hid => ?_⟩
  · obtain ⟨D, D', hD, hD', hunlim, hlen⟩ := hget id (List.mem_of_getElem? hid)
    have hcover := h.covers.2 k id n hid hn
    simp only [inqUnlim, inqDimlen, hD, hD', Option.map_some, Option.getD_some] at hcover ⊢
    rw [hunlim]
    -- a dimension that is not unlimited keeps its length
    rcases Bool.eq_false_or_eq_true D.unlimited with htrue | hfixed
    · exact .inl htrue
    · have hnot : ¬ D.unlimited = true := by
        rw [hfixed]
        exact Bool.false_ne_true
      exact .inr ((hlen hfixed).trans (hcover.resolve_left hnot))
  · obtain ⟨D, D', -, hD', -⟩ := hget id hid
    exact (List.getElem?_eq_some_iff.mp hD').1

/-- Extents that may follow the extents `es`: as many, and the same along a dimension of fixed
length. -/
def Rewritable (f : NcFile) (ids es es' : List Nat) : Prop :=
  es'.length = es.length ∧
    ∀ k id : Nat, ids[k]? = some id → f.inqUnlim id = true ∨ es'[k]? = es[k]?

/-- The dimensions cover the extents exactly when the write agrees with the definition. -/
theorem Fits.covers_iff (h : f.Fits ids es) : f.Covers ids es' ↔ f.Rewritable ids es es' := by
  constructor
  · rintro ⟨hcount, hcover⟩
    refine ⟨hcount.trans h.covers.1.symm, fun k id hid => ?_⟩
    obtain ⟨n, hn⟩ := exists_getElem? h.covers.1 hid
    obtain ⟨n', hn'⟩ := exists_getElem? hcount hid
    -- a limited dimension is covered by its own length only
    rcases hcover k id n' hid hn' with hunlim | hlen'
    · exact .inl hunlim
    · refine (h.covers.2 k id n hid hn).imp_right fun hlen => ?_
      rw [hn, hn', ← hlen, ← hlen']
  · rintro ⟨hcount, hsame⟩
    refine ⟨hcount.trans h.covers.1, fun k id n hid hn => ?_⟩
    rcases hsame k id hid with hunlim | heq
    · exact .inl hunlim
    · exact h.covers.2 k id n hid (heq.symm.trans hn)

/-- What a new variable needs of the file so that its block covers it: a dimension that has the
default name of an axis is unlimited or has its length, unless it is not asked for, because another
dimension has this length or is defined with it for an earlier axis. -/
def Definable (f : NcFile) (name : List UInt8) (es : List Nat) : Prop :=
  ∀ d e i : Nat, es[d]? = some e → f.inqDimid (dimName name es.length d) = some i →
    f.inqUnlim i = true ∨ f.inqDimlen i = e ∨ isCoordinate name = false ∧
      (f.matchingDimids e ≠ [] ∨
        ∃ k, k < d ∧ es[k]? = some e ∧ f.inqDimid (dimName name es.length k) = none)

/-- **When the block of a new variable covers it.** -/
theorem defineDims_covers (hrank : es.length ≤ maxRank)
    (h : defineDims lib name es.length f 0 es = some (f', ids)) :
    (f'.Covers ids es ↔ f.Definable name es) ∧ ∀ id ∈ ids, id < f'.dims.length := by
  cases hcoord : isCoordinate name with
  | true =>
    obtain ⟨⟨added, hs⟩, hcount, hO⟩ := defineDims_naming hcoord hrank h
    refine ⟨⟨fun hcover d e i he hi => ?_, fun hdef => ⟨hcount.symm, fun d id e hid he => ?_⟩⟩,
      fun id hid => ?_⟩
    · obtain ⟨id, hid⟩ := exists_getElem? hcount he
      obtain rfl := (hO d e id he hid).found i hi
      have hlt := (inqDimid_spec hi).1
      rw [← hs.ext.inqUnlim hlt, ← hs.ext.inqDimlen hlt]
      exact (hcover.2 d id e hid he).imp_right .inl
    · have hnamed := hO d e id he hid
      cases hfound : f.inqDimid (dimName name es.length d) with
      | some i =>
        obtain rfl := hnamed.found i hfound
        have hlt := (inqDimid_spec hfound).1
        rw [hs.ext.inqUnlim hlt, hs.ext.inqDimlen hlt]
        refine (hdef d e id he hfound).imp_right fun hor => hor.resolve_right fun hnot => ?_
        rw [hcoord] at hnot
        cases hnot.1
      | none =>
        obtain ⟨-, hunlim, hlen⟩ := hnamed.defined hfound
        by_cases htime : dimName name es.length d = text "time"
        · exact .inl (hunlim.trans (decide_eq_true (.inl htime)))
        · exact .inr (hlen htime)
    · obtain ⟨d, hid⟩ := List.mem_iff_getElem?.mp hid
      obtain ⟨e, he⟩ := exists_extent hcount hid
      exact (hO d e id he hid).lt
  | false =>
    obtain ⟨⟨added, hs⟩, hcount, hO⟩ := defineDims_sharing hcoord hrank h
    refine ⟨⟨fun hcover d e i he hi => ?_, fun hdef => ⟨hcount.symm, fun d id e hid he => ?_⟩⟩,
      fun id hid => ?_⟩
    · by_cases hno : f.matchingDimids e = []
      · by_cases hfirst : ∃ k, k < d ∧ es[k]? = some e ∧
            f.inqDimid (dimName name es.length k) = none
        · exact .inr (.inr ⟨hcoord, .inr hfirst⟩)
        -- nothing else is found, so the dimension of the default name is taken
        · push Not at hfirst
          obtain ⟨id, hid⟩ := exists_getElem? hcount he
          obtain rfl := (hO d e id he hid).taken hno hfirst i hi
          have hlt := (inqDimid_spec hi).1
          rw [← hs.ext.inqUnlim hlt, ← hs.ext.inqDimlen hlt]
          exact (hcover.2 d id e hid he).imp_right .inl
      · exact .inr (.inr ⟨hcoord, .inl hno⟩)
    · have hchosen := hO d e id he hid
      by_cases hno : f.matchingDimids e = []
      · by_cases hfirst : ∃ k, k ≤ d ∧ es[k]? = some e ∧
            f.inqDimid (dimName name es.length k) = none
        · obtain ⟨k, hk, hek, hfree⟩ := hfirst
          exact .inr (hchosen.fresh hno k hk hek hfree)
        · push Not at hfirst
          obtain ⟨i, hi⟩ := Option.ne_none_iff_exists'.mp (hfirst d le_rfl he)
          obtain rfl := hchosen.taken hno (fun k hk => hfirst k hk.le) i hi
          have hlt := (inqDimid_spec hi).1
          rw [hs.ext.inqUnlim hlt, hs.ext.inqDimlen hlt]
          refine (hdef d e id he hi).imp_right fun hor => hor.resolve_right ?_
          rintro ⟨-, hsome | ⟨k, hk, hek, hfree⟩⟩
          · exact hsome hno
          · exact hfirst k hk.le hek hfree
      · have hmem := mem_matchingDimids.mp (mem_of_bestMatch (hchosen.shared hno))
        exact .inr ((hs.ext.inqDimlen hmem.1).trans hmem.2)
    · obtain ⟨d, hid⟩ := List.mem_iff_getElem?.mp hid
      obtain ⟨e, he⟩ := exists_extent hcount hid
      exact (hO d e id he hid).lt

end NcFile

open NcFile

namespace Driver

variable {lib : Library} {d d' : Driver} {defs : List UInt8 → List Nat} {m : VarMeta}
  {src : List UInt8} {v : NcVar}

/-! ### One write -/

/-- `write` up to `nc_put_vara`: the file as it is then, and the variable unless it has thrown. -/
def prepare (lib : Library) (d : Driver) (m : VarMeta) : NcFile × Option NcVar :=
  if d.isOpen = true ∧ d.isWriteMode = true then
    match d.file.vars m.name with
    | some v => (d.file, some v)
    | none => leaveDefine lib d.file m (attributesOf ((d.attributes m.name).getD []))
  else (d.file, none)

/-- The index arrays are made of the shape that is written. -/
def start (m : VarMeta) : List Nat := List.replicate m.shape.extentList.length 0

def count (m : VarMeta) : List Nat := m.shape.extentList

/-- `write`, and whether it returns. netCDF takes as many entries from the index arrays as the
variable has dimensions. -/
def attempt (lib : Library) (d : Driver) (src : List UInt8) (m : VarMeta) : Driver × Bool :=
  match d.prepare lib m with
  | (f, none) => ({ d with file := f }, false)
  | (f, some v) =>
    match f.putVara lib m.name v ((count m).take v.dimids.length) src with
    | some f' => ({ d with file := f' }, true)
    | none => ({ d with file := f }, false)

/-- What is claimed of a write: the index arrays that `nc_put_vara` is given have an entry for each
dimension and the block covers the variable; and where it would not, the write throws and leaves all
as it was. -/
structure Consistent (lib : Library) (d : Driver) (src : List UInt8) (m : VarMeta) : Prop where
  reaches : ∀ v, (d.prepare lib m).2 = some v → (start m).length = v.dimids.length ∧
    (count m).length = v.dimids.length ∧ (d.prepare lib m).1.Covers v.dimids (count m)
  refuses : ∀ v, d.file.vars m.name = some v → ¬ d.file.Covers v.dimids (count m) →
    d.attempt lib src m = (d, false)

/-- The extents that variables were defined with, after a write. -/
def remember (d : Driver) (defs : List UInt8 → List Nat) (m : VarMeta) : List UInt8 → List Nat :=
  if d.file.vars m.name = none then Function.update defs m.name m.shape.extentList else defs

/-- A variable that is there is written with the extents it was defined with, but for unlimited
dimensions; a new one does not run into a dimension of its default names. -/
def Meets (d : Driver) (defs : List UInt8 → List Nat) (m : VarMeta) : Prop :=
  match d.file.vars m.name with
  | some v => d.file.Rewritable v.dimids (defs m.name) m.shape.extentList
  | none => d.file.Definable m.name m.shape.extentList

/-- The states of a dataset that is being written, with the extents that its variables were defined
with. Writes fail as the library pleases; those that leave their variable defined meet the
condition. -/
inductive Kept (lib : Library) : Driver → (List UInt8 → List Nat) → Prop
  | start {d₀ d : Driver} {attributes : List UInt8 → Option (List (List UInt8 × AttrValue))}
      (h : d₀.openWrite attributes = some d) : Kept lib d fun _ => []
  | write {d : Driver} {defs : List UInt8 → List Nat} (src : List UInt8) (m : VarMeta)
      (h : Kept lib d defs)
      (hmeets : ((d.attempt lib src m).1.file.vars m.name).isSome = true → d.Meets defs m) :
      Kept lib (d.attempt lib src m).1 (d.remember defs m)

/-- The variable is there, or it is defined. -/
theorem prepare_cases (lib : Library) (d : Driver) (m : VarMeta) :
    (∃ v, d.file.vars m.name = some v ∧ (d.prepare lib m).1 = d.file ∧
      ∀ v', (d.prepare lib m).2 = some v' → v' = v) ∨
    d.file.vars m.name = none ∧ Left lib d.file m (d.prepare lib m).1 ∧
      ∀ v, (d.prepare lib m).2 = some v → (d.prepare lib m).1.vars m.name = some v := by
  cases hv : d.file.vars m.name with
  | some v =>
    refine .inl ⟨v, rfl, ?_⟩
    unfold prepare
    split
    · rw [hv]
      exact ⟨rfl, fun v' hv' => (Option.some.inj hv').symm⟩
    · exact ⟨rfl, nofun⟩
  | none =>
    refine .inr ⟨rfl, ?_⟩
    unfold prepare
    split
    · rw [hv]
      exact leaveDefine_spec lib d.file m _
    · exact ⟨.of_extends (.refl d.file), nofun⟩

/-- **`nc_put_vara` defines nothing**: dimensions grow at most, and no variable gets others. -/
theorem attempt_spec (lib : Library) (d : Driver) (src : List UInt8) (m : VarMeta)
    (hself : ∀ v, (d.prepare lib m).2 = some v → (d.prepare lib m).1.vars m.name = some v) :
    Grown (d.prepare lib m).1.dims (d.attempt lib src m).1.file.dims ∧
      ∀ name v', (d.attempt lib src m).1.file.vars name = some v' →
        ∃ v, (d.prepare lib m).1.vars name = some v ∧ v.dimids = v'.dimids := by
  unfold attempt
  rcases hprep : d.prepare lib m with ⟨f, _ | v⟩
  · exact ⟨.refl _, fun name v' hv' => ⟨v', hv', rfl⟩⟩
  · rw [hprep] at hself
    dsimp only
    split
    · next f' hput =>
      obtain ⟨hdims, hvars⟩ := putVara_spec hput
      -- the block goes into the variable that was looked up
      refine ⟨by rw [hdims]; exact .foldl _ _, fun name v' hv' => ?_⟩
      dsimp only at hv'
      rw [hvars] at hv'
      by_cases hname : name = m.name
      · subst hname
        rw [Function.update_self] at hv'
        obtain rfl := Option.some.inj hv'
        exact ⟨v, hself v rfl, rfl⟩
      · rw [Function.update_of_ne hname] at hv'
        exact ⟨v', hv', rfl⟩
    · exact ⟨.refl _, fun name v' hv' => ⟨v', hv', rfl⟩⟩

/-- The variable is the one of its name. -/
theorem prepare_self (lib : Library) (d : Driver) (m : VarMeta) (v : NcVar)
    (h : (d.prepare lib m).2 = some v) : (d.prepare lib m).1.vars m.name = some v := by
  rcases prepare_cases lib d m with ⟨v', hv', hfile, honly⟩ | ⟨-, -, hself⟩
  · rw [hfile, hv', honly v h]
  · exact hself v h

/-- The dimensions of a variable that a write defines. -/
theorem Left.covers {f g : NcFile} (h : Left lib f m g) (hnew : f.vars m.name = none)
    (hv : g.vars m.name = some v) :
    (g.Covers v.dimids m.shape.extentList ↔ f.Definable m.name m.shape.extentList) ∧
      ∀ id ∈ v.dimids, id < g.dims.length := by
  rcases h.defined v hv with hold | ⟨f', hdims, hsame⟩
  · rw [hnew] at hold
    cases hold
  · obtain ⟨hcovers, hinside⟩ := defineDims_covers (length_extentList_le m) hdims
    rw [hsame]
    refine ⟨?_, hinside⟩
    -- only the dimensions count
    have hiff : g.Covers v.dimids m.shape.extentList ↔ f'.Covers v.dimids m.shape.extentList := by
      simp only [Covers, inqUnlim, inqDimlen, hsame]
    exact hiff.trans hcovers

/-- **The invariant of the runs**: every variable has dimensions of the lengths that it was defined
with. -/
theorem Kept.fits (h : Kept lib d defs) {name : List UInt8} (hv : d.file.vars name = some v) :
    d.file.Fits v.dimids (defs name) := by
  induction h generalizing name v with
  | start hopen =>
    unfold openWrite at hopen
    split at hopen
    · cases hopen
    · obtain rfl := Option.some.inj hopen
      cases hv
  | @write d defs src m _ hmeets ih =>
    obtain ⟨hgrown, hvars⟩ := attempt_spec lib d src m (prepare_self lib d m)
    obtain ⟨v₀, hv₀, hids⟩ := hvars name v hv
    rw [← hids]
    refine Fits.grown ?_ hgrown
    rcases prepare_cases lib d m with ⟨v', hv', hfile, -⟩ | ⟨hnew, hleft, -⟩
    · rw [hfile] at hv₀ ⊢
      rw [remember, if_neg (by rw [hv']; exact nofun)]
      exact ih hv₀
    · rw [remember, if_pos hnew]
      by_cases hname : name = m.name
      -- the variable that was defined just now, under the condition
      · subst hname
        have hmeet := hmeets (Option.isSome_iff_exists.mpr ⟨v, hv⟩)
        simp only [Meets, hnew] at hmeet
        obtain ⟨hcovers, hinside⟩ := Left.covers hleft hnew hv₀
        rw [Function.update_self]
        exact ⟨hcovers.mpr hmeet, hinside⟩
      · rw [Function.update_of_ne hname]
        rw [hleft.others name hname] at hv₀
        obtain ⟨added, hdims⟩ := hleft.dims
        exact (ih hv₀).grown (by rw [hdims]; exact .append _ _)

/-- **The block of a write that gets as far as `nc_put_vara`** covers its variable if and only if
the write meets the condition. -/
theorem Kept.covers_iff (h : Kept lib d defs) (hv : (d.prepare lib m).2 = some v) :
    (d.prepare lib m).1.Covers v.dimids (count m) ↔ d.Meets defs m := by
  rcases prepare_cases lib d m with ⟨v', hv', hfile, honly⟩ | ⟨hnew, hleft, hself⟩
  · rw [hfile, honly v hv]
    simp only [Meets, hv']
    exact (h.fits hv').covers_iff
  · simp only [Meets, hnew]
    exact (Left.covers hleft hnew (hself v hv)).1

/-- A definition that does not fail. -/
theorem define_of_leaveDefine {g : NcFile}
    (h : leaveDefine lib d.file m (attributesOf ((d.attributes m.name).getD [])) = (g, some v)) :
    d.define lib m = some (g, v) := by
  unfold leaveDefine at h
  unfold define
  dsimp only at h ⊢
  split at h
  · next hallow =>
    rw [if_pos hallow]
    rcases hdims : leaveDims lib m.name m.shape.extentList.length d.file 0 m.shape.extentList
      with ⟨f', _ | ids⟩
    · rw [hdims] at h
      cases (Prod.mk.inj h).2
    · rw [hdims] at h
      rw [defineDims_of_leaveDims hdims, Option.bind_some]
      dsimp only at h ⊢
      cases hdtype : m.dtype with
      | none =>
        rw [hdtype] at h
        cases (Prod.mk.inj h).2
      | some dtype =>
        rw [hdtype] at h
        dsimp only at h
        rw [Option.bind_some]
        split at h
        · cases (Prod.mk.inj h).2
        · next g' v' hvar =>
          obtain ⟨rfl, hsome⟩ := Prod.mk.inj h
          split at hsome
          · obtain rfl := Option.some.inj hsome
            exact hvar
          · cases hsome
  · cases (Prod.mk.inj h).2

/-- **A consistent write that returns is `write`.** -/
theorem Consistent.write (h : d.Consistent lib src m) (hreturns : (d.attempt lib src m).2 = true) :
    d.write lib src m = some (d.attempt lib src m).1 := by
  rcases hprep : d.prepare lib m with ⟨f, _ | v⟩
  · simp only [attempt, hprep] at hreturns
    cases hreturns
  -- nothing of the count is cut off
  · have hcount : (count m).take v.dimids.length = m.shape.extentList :=
      List.take_of_length_le (h.reaches v (by rw [hprep])).2.1.le
    simp only [attempt, hprep, hcount] at hreturns ⊢
    have hopen : d.isOpen = true ∧ d.isWriteMode = true := by
      by_contra hclosed
      rw [prepare, if_neg hclosed] at hprep
      cases (Prod.mk.inj hprep).2
    have hwrite : d.write lib src m = (f.putVara lib m.name v m.shape.extentList src).map
        fun f => { d with file := f } := by
      rw [prepare, if_pos hopen] at hprep
      rw [Driver.write, if_pos hopen]
      cases hv : d.file.vars m.name with
      | some v' =>
        rw [hv] at hprep
        obtain ⟨rfl, hsome⟩ := Prod.mk.inj hprep
        rw [Option.some.inj hsome]
        rfl
      | none =>
        rw [hv] at hprep
        dsimp only at hprep ⊢
        rw [define_of_leaveDefine hprep]
        rfl
    rw [hwrite]
    cases hput : f.putVara lib m.name v m.shape.extentList src with
    | none =>
      rw [hput] at hreturns
      cases hreturns
    | some f' => rfl

end Driver

/-- **When a rewrite is consistent.** In every run whose writes all met the condition, a write is
consistent if and only if it meets the condition, or throws before it gets to `nc_put_vara`. -/
theorem rewrites_iff {lib : Library} {d : Driver} {defs : List UInt8 → List Nat}
    (h : Driver.Kept lib d defs) (src : List UInt8) (m : VarMeta) :
    d.Consistent lib src m ↔ ((d.prepare lib m).2.isSome = true → d.Meets defs m) := by
  constructor
  · intro hcons hsome
    obtain ⟨v, hv⟩ := Option.isSome_iff_exists.mp hsome
    exact (h.covers_iff hv).mp (hcons.reaches v hv).2.2
  · intro hmeets
    refine ⟨fun v hv => ?_, fun v hv hnot => ?_⟩
    · have hcovers := (h.covers_iff hv).mpr (hmeets (by rw [hv]; rfl))
      exact ⟨List.length_replicate.trans hcovers.1, hcovers.1, hcovers⟩
    -- a variable that is there is always written to, so its block does cover it
    · by_cases hopen : d.isOpen = true ∧ d.isWriteMode = true
      · have hprep : d.prepare lib m = (d.file, some v) := by
          simp only [Driver.prepare, if_pos hopen, hv]
        have hcovers := (h.covers_iff (by rw [hprep])).mpr (hmeets (by rw [hprep]; rfl))
        rw [hprep] at hcovers
        exact absurd hcovers hnot
      · have hprep : d.prepare lib m = (d.file, none) := if_neg hopen
        simp only [Driver.attempt, hprep]

/-! ### Arrays of four -/

/-- An array of `n` cells, without a type when it cannot be written. -/
def array (dtype : Option Dtype) (rank : Int) (n : Int) : VarMeta :=
  { datasetId := 1, name := text "a", dtype := dtype, shape := ⟨rank, fun _ => n, fun _ => 0⟩ }

theorem withDims_opened :
    (Driver.mk false false (fun _ => none) .empty).openWrite (fun _ => none) =
      some (withDims []) := rfl

theorem kept_array :
    Driver.Kept permissive ((withDims []).attempt permissive [1, 2, 3, 4] (array (some .u8) 1 4)).1
      ((withDims []).remember (fun _ => []) (array (some .u8) 1 4)) :=
  .write _ _ (.start withDims_opened) fun _ => by
    intro d e i he hi
    cases hi

theorem rewrites_of_array :
    ∃ d defs, Driver.Kept permissive d defs ∧ (d.file.vars (text "a")).isSome ∧
      d.Consistent permissive [5, 6, 7, 8] (array (some .u8) 1 4) := by
  refine ⟨_, _, kept_array, by decide +kernel, (rewrites_iff kept_array _ _).2 fun _ => ?_⟩
  exact ⟨rfl, fun _ _ _ => .inr rfl⟩

/-- An array of four is overwritten by one of two, and by one of four by four, of which netCDF takes
the first row; and an array of three that could not be written makes a later one of four be defined
with three cells. -/
theorem mismatches_written :
    (∃ d defs, Driver.Kept permissive d defs ∧
      (d.attempt permissive [5, 6] (array (some .u8) 1 2)).2 = true ∧
      ¬ d.Consistent permissive [5, 6] (array (some .u8) 1 2) ∧
      (d.attempt permissive (List.replicate 16 9) (array (some .u8) 2 4)).2 = true ∧
      ¬ d.Consistent permissive (List.replicate 16 9) (array (some .u8) 2 4)) ∧
    ∃ d defs, Driver.Kept permissive d defs ∧
      (d.prepare permissive (array (some .u8) 1 4)).2.isSome ∧
      ¬ d.Consistent permissive [1, 2, 3, 4] (array (some .u8) 1 4) := by
  constructor
  · refine ⟨_, _, kept_array, by decide +kernel, fun hcons => ?_, by decide +kernel,
      fun hcons => ?_⟩
    -- the extent of the axis is not the length of its dimension
    · have hcover := (hcons.reaches _ rfl).2.2.2 0 0 2 rfl rfl
      revert hcover
      decide +kernel
    -- another number of axes
    · have hcount := (hcons.reaches _ rfl).2.1
      revert hcount
      decide +kernel
  -- the definition of an unknown type fails and leaves its dimensions
  · have hkept : Driver.Kept permissive
        ((withDims []).attempt permissive [1, 2, 3] (array none 1 3)).1 _ :=
      .write _ _ (.start withDims_opened) fun hsome => absurd hsome (by decide +kernel)
    refine ⟨_, _, hkept, by decide +kernel, fun hcons => ?_⟩
    have hcover := (hcons.reaches _ rfl).2.2.2 0 0 4 rfl rfl
    revert hcover
    decide +kernel

end Amio.NetCdf
