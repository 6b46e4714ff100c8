import Amio.Drivers.NetCdfTime
import Amio.Drivers.ZarrTime
import Amio.Staging.PoolInvariant

/-!
# The buffers of reads

Three components compute the size of a read, each for itself: `sync_fetch` before it acquires a
buffer, the staging pool when it looks for one or makes one, and the driver before it writes into
it. `sync_fetch` gives up on a record of which an extent is zero and asks for a buffer of nominal
capacity, the pool rounds up, and all of them multiply modulo `2 ^ 64`. For what the NetCDF and the
TensorStore driver describe, the buffer is large enough (`read_buffers_suffice`): a product without
a zero is the same everywhere, and one with a zero asks for nothing.
-/

namespace Amio

open RowMajor

/-! ### The pool -/

namespace StagingPool

variable {p p' : StagingPool} {r i n freeIdx : Nat} {alloc : Bool}

/-- The buffer is as large as was asked for. -/
theorem capacity_commitAt (h : p.commitAt freeIdx r alloc = (.got i, p')) :
    r ≤ (p'.buf i).capacityBytes := by
  unfold commitAt at h
  simp only at h
  split at h
  · next p₁ hensure =>
    obtain ⟨hi, rfl⟩ := Prod.mk.inj h
    obtain rfl := Acquired.got.inj hi
    obtain ⟨data, c, hc, rfl⟩ := ensureStorage_some hensure
    calc r ≤ p.targetBytes r := le_targetBytes p r
      _ ≤ c := hc
      _ = _ := by simp [removeFromFreeList, setBuf]
  · cases (Prod.mk.inj h).1

/-- A buffer that the pool hands out has the capacity that was asked for, whatever state the pool is
in. -/
theorem capacity_of_got (h : p.acquireOnce r alloc = (.got i, p') ∨
    p.acquireFinal r alloc = (.got i, p')) : r ≤ (p'.buf i).capacityBytes := by
  have hloop : ∀ n (q : StagingPool), acquireLoop r alloc n q = (.got i, p') →
      r ≤ (p'.buf i).capacityBytes := by
    intro n
    induction n with
    | zero =>
      intro q hq
      cases (Prod.mk.inj hq).1
    | succ n ih =>
      intro q hq
      simp only [acquireLoop] at hq
      split at hq
      · exact capacity_commitAt hq
      · split at hq
        · exact ih q.appendSlot hq
        · cases (Prod.mk.inj hq).1
  rcases h with honce | hfinal
  · exact hloop 2 p honce
  · simp only [acquireFinal] at hfinal
    split at hfinal
    · exact capacity_commitAt hfinal
    · cases (Prod.mk.inj hfinal).1

end StagingPool

/-! ### The size that is asked for -/

/-- The byte count of a block without a zero. -/
theorem blockBytes_eq {elem : Nat} {rank : Int} {extents : Fin maxRank → Int} (helem : 0 < elem)
    (hrank : 0 < rank) (hpos : ∀ d ∈ dims rank, 0 < extents d) :
    blockBytes elem rank extents =
      some (u64 (((dims rank).map fun d => (extents d).toNat).prod * elem)) := by
  have hall : (dims rank).all (fun d => decide (0 < extents d)) = true := by
    simpa using hpos
  have hfold := WriteArgs.foldl_count (dims rank) extents (fun d hd => (hpos d hd).le) 1
  rw [Nat.one_mul, Nat.mod_eq_of_lt (by decide : 1 < 2 ^ 64)] at hfold
  rw [blockBytes, if_pos ⟨helem, hrank, hall⟩, hfold, u64, u64, Nat.mul_mod_mod, Nat.mul_comm]

/-- A size that is zero is replaced by the nominal capacity. -/
theorem le_payload (n capacity : Nat) : n ≤ if 0 < n then n else capacity := by
  split
  · exact le_rfl
  · omega

/-- **Sizing.** `sync_fetch` asks for at least the size of the selection. -/
theorem size_le_acquireBytes {info : VariableInfo} {bbox : Option Bbox} (capacity : Nat)
    (helem : elementSize info.dtype ≠ 0) (hrank : 1 ≤ info.shape.rank)
    (hok : validateBbox bbox info.shape = .ok) :
    u64 ((selectedExtents info.shape bbox).prod * elementSize info.dtype) ≤
      info.acquireBytes capacity bbox := by
  have hsize := Nat.pos_of_ne_zero helem
  cases bbox with
  | some b =>
    obtain ⟨hsame, hb⟩ := validateBbox_ok_iff.mp hok
    have hpos : ∀ d ∈ dims b.rank, 0 < b.extents d := by
      intro d hd
      obtain ⟨-, -, hext, -⟩ := hb d hd
      omega
    simp only [VariableInfo.acquireBytes, blockBytes_eq hsize (by omega) hpos, Option.getD_some]
    exact le_payload _ _
  | none =>
    by_cases hzero : info.shape.extentList.prod = 0
    · simp [selectedExtents, hzero, u64]
    · -- no extent is zero, so that the record has a size
      have hpos : ∀ d ∈ dims info.shape.rank, 0 < info.shape.extents d := by
        intro d hd
        have hmem : (info.shape.extents d).toNat ∈ info.shape.extentList :=
          List.mem_map.mpr ⟨d, hd, rfl⟩
        have hent := List.prod_pos_iff_forall_pos_nat.mp (Nat.pos_of_ne_zero hzero) _ hmem
        omega
      simp only [VariableInfo.acquireBytes, blockBytes_eq hsize (by omega) hpos, Option.getD_some]
      exact le_payload _ _

/-! ### What the drivers ask of a buffer -/

/-- A buffer of the given capacity is enough for a `read` whose own `total_bytes` is `total` and
that has `transfer` from the library: the driver throws about smaller buffers and only about these,
and into this one it reads what the library transfers. -/
structure Suffices {β : Type} (capacity total : Nat) (transfer : Option β)
    (read : Nat → Except ReadError (β × Nat)) : Prop where
  total_le : total ≤ capacity
  guards : ∀ c required c',
    read c = .error (.overCapacity required c') ↔ c < total ∧ required = total ∧ c' = c
  delivers : ∀ out, transfer = some out → read capacity = .ok (out, total)
  fails : transfer = none → read capacity = .error .failed

/-- A driver ends with the check of the capacity and the transfer. -/
theorem suffices_readInto {β : Type} {capacity total : Nat} {transfer : Option β}
    {read : Nat → Except ReadError (β × Nat)} (hle : total ≤ capacity)
    (hread : ∀ c, read c = readInto c total transfer) :
    Suffices capacity total transfer read where
  total_le := hle
  guards c required c' := by
    rw [hread]
    unfold readInto
    by_cases hc : c < total
    · rw [if_pos hc, Except.error.injEq, ReadError.overCapacity.injEq]
      exact ⟨fun ⟨h, h'⟩ => ⟨hc, h.symm, h'.symm⟩, fun ⟨_, h, h'⟩ => ⟨h.symm, h'.symm⟩⟩
    · -- neither a payload nor a failure of the library is about the capacity
      rw [if_neg hc]
      cases transfer <;> simp [hc]
  delivers out hout := by
    rw [hread, hout]
    exact if_neg (by omega)
  fails hout := by
    rw [hread, hout]
    exact if_neg (by omega)

/-! ### The drivers -/

/-- The drivers are given the entries of the box that were validated. -/
theorem validateBbox_toDriver (bbox : Option Bbox) (shape : Shape) :
    validateBbox (bbox.map Bbox.toDriver) shape = .ok ↔ validateBbox bbox shape = .ok := by
  cases bbox with
  | none => exact Iff.rfl
  | some b =>
    rw [Option.map_some, validateBbox_ok_iff, validateBbox_ok_iff]
    refine and_congr_right fun _ => forall₂_congr fun d hd => ?_
    have hin : (d : Int) < b.rank := mem_dims.mp hd
    simp only [Bbox.last, Bbox.toDriver, if_pos hin]

/-- A driver that reports `total` bytes does not reach the guard of `sync_fetch`: the payload is
delivered into the buffer that was acquired, and the buffer is not over its capacity. -/
def Stage.NeverOver (s : Stage) (p : StagingPool) (buf : Nat) (t : Int) (bbox : Option Bbox)
    (total : Nat) : Prop :=
  ∀ k payload, payload.length = total →
    ((s.acquired p buf k).deliver buf (s.queue.driverRead t bbox payload)).overCapacity buf = false

/-- A record that fits is not over the capacity. -/
theorem neverOver_of_le {s : Stage} {p : StagingPool} {buf : Nat} {t : Int} {bbox : Option Bbox}
    {total : Nat} (hle : total ≤ (p.buf buf).capacityBytes) : s.NeverOver p buf t bbox total := by
  intro k payload hpayload
  have hfilled : (p.fill buf payload).buf buf =
      { p.buf buf with
        data := (p.buf buf).data.map fun d => payload ++ d.drop payload.length
        usedBytes := payload.length } := Function.update_self _ _ _
  show decide (((p.fill buf payload).buf buf).capacityBytes <
    ((p.fill buf payload).buf buf).usedBytes) = false
  rw [hfilled]
  exact decide_eq_false (by show ¬ (p.buf buf).capacityBytes < payload.length; omega)

section Drivers

variable {info : VariableInfo} {bbox : Option Bbox} {capacity nominal : Nat}

/-- A buffer of the size that was asked for, for what NetCDF describes. -/
theorem netCdf_suffices {d : NetCdf.Driver} {m : VarMeta}
    (hinfo : d.describeVariable m.name = some info) (hshape : m.shape = info.shape)
    (hdtype : m.dtype = info.dtype) (hok : validateBbox bbox info.shape = .ok)
    (hcapacity : info.acquireBytes nominal bbox ≤ capacity) (t : Int) :
    ∃ v start count steps, d.file.vars m.name = some v ∧
      NetCdf.hyperslab v.dimids.length m.shape t (bbox.map Bbox.toDriver) =
        some (start, count, steps) ∧
      Suffices capacity (NetCdf.totalBytes v.dimids.length m count)
        (d.file.getVars v start count steps) fun c =>
          d.tryRead c m t (bbox.map Bbox.toDriver) := by
  obtain ⟨v, h⟩ := NetCdf.described hinfo
  have hok' := (validateBbox_toDriver bbox info.shape).mpr hok
  have hslab := h.hyperslab_eq (t := t) hok'
  have hextents : (NetCdf.selection info.shape (bbox.map Bbox.toDriver)).2.1 =
      selectedExtents info.shape bbox := by
    rw [← selectedExtents_toDriver]
    cases bbox <;> rfl
  -- what the driver counts is what `sync_fetch` asked the pool for, or less
  have hle := (size_le_acquireBytes nominal h.dtype h.rank_pos hok).trans hcapacity
  rw [← hextents, ← h.totalBytes_eq hok' hshape hdtype] at hle
  rw [← hshape] at hslab hle
  exact ⟨v, _, _, _, h.isVar, hslab, suffices_readInto hle
    (NetCdf.Driver.tryRead_eq h.isOpen h.isVar hslab (hdtype ▸ h.dtype))⟩

/-- What a description of Zarr says. -/
theorem zarr_described {dtype : Dtype} {extents : List Nat}
    (h : Zarr.describeVariable dtype extents = some info) :
    info.dtype = some dtype ∧ 1 ≤ info.shape.rank := by
  unfold Zarr.describeVariable at h
  dsimp only at h
  by_cases hrank : extents.length < 1 ∨
      extents.length - (if 2 ≤ extents.length then 1 else 0) < 1 ∨
      maxRank < extents.length - (if 2 ≤ extents.length then 1 else 0)
  -- an array without axes, or with too many, is not described
  · rw [if_pos hrank] at h
    cases h
  · rw [if_neg hrank] at h
    obtain rfl := Option.some.inj h
    refine ⟨rfl, ?_⟩
    show (1 : Int) ≤ ((_ : Nat) : Int)
    omega

/-- A buffer of the size that was asked for, for what TensorStore describes. -/
theorem zarr_suffices {dtype : Dtype} {extents : List Nat}
    (hinfo : Zarr.describeVariable dtype extents = some info)
    (hok : validateBbox bbox info.shape = .ok)
    (hcapacity : info.acquireBytes nominal bbox ≤ capacity) (ts : Zarr.TensorStore)
    (content : List Nat → List UInt8) (t : Int) :
    Suffices capacity (Zarr.totalBytes info (bbox.map Bbox.toDriver))
      (Zarr.transfer ts content extents info (bbox.map Bbox.toDriver)) fun c =>
        Zarr.tryRead ts content extents info c t (bbox.map Bbox.toDriver) := by
  obtain ⟨hdtype, hrank⟩ := zarr_described hinfo
  have helem : elementSize info.dtype ≠ 0 := by
    rw [hdtype]
    exact NetCdf.elementSize_some dtype
  have hle := (size_le_acquireBytes nominal helem hrank hok).trans hcapacity
  have htotal : Zarr.totalBytes info (bbox.map Bbox.toDriver) =
      u64 ((selectedExtents info.shape bbox).prod * elementSize info.dtype) := by
    rw [Zarr.totalBytes, selectedExtents_toDriver, u64_foldl_mul]
  exact suffices_readInto (htotal.trans_le hle) fun _ => rfl

/-- **Read buffers.** Whatever state the pool is in, the buffer that `sync_fetch` acquires for a
selection of a described variable takes the payload of the read: the driver's own `total_bytes` is
at most its capacity, the read into it is the transfer by the library, with no exception about the
capacity, and what it reports as used is not over the capacity of the buffer. -/
theorem read_buffers_suffice {s : Stage} {alloc : Bool} {buf : Nat} {p : StagingPool}
    (hgot : s.pool.acquireOnce
          (s.queue.info.acquireBytes s.pool.bufferCapacity bbox) alloc = (.got buf, p) ∨
      s.pool.acquireFinal
          (s.queue.info.acquireBytes s.pool.bufferCapacity bbox) alloc = (.got buf, p))
    (hok : validateBbox bbox s.queue.info.shape = .ok) (t : Int) :
    (∀ d : NetCdf.Driver, d.describeVariable s.queue.varName = some s.queue.info →
      ∃ v start count steps, d.file.vars s.queue.varName = some v ∧
        NetCdf.hyperslab v.dimids.length s.queue.info.shape t (bbox.map Bbox.toDriver) =
          some (start, count, steps) ∧
        let m := (s.queue.driverRead t bbox []).varMeta
        let total := NetCdf.totalBytes v.dimids.length m count
        Suffices (p.buf buf).capacityBytes total (d.file.getVars v start count steps)
          (fun c => d.tryRead c m t (bbox.map Bbox.toDriver)) ∧
        s.NeverOver p buf t bbox total) ∧
    (∀ ts content dtype extents, Zarr.describeVariable dtype extents = some s.queue.info →
      let total := Zarr.totalBytes s.queue.info (bbox.map Bbox.toDriver)
      Suffices (p.buf buf).capacityBytes total
        (Zarr.transfer ts content extents s.queue.info (bbox.map Bbox.toDriver))
        (fun c => Zarr.tryRead ts content extents s.queue.info c t (bbox.map Bbox.toDriver)) ∧
      s.NeverOver p buf t bbox total) := by
  have hcapacity := StagingPool.capacity_of_got hgot
  constructor
  -- netCDF, then TensorStore
  · intro d hinfo
    obtain ⟨v, start, count, steps, hv, hslab, hsuffices⟩ :=
      netCdf_suffices (m := (s.queue.driverRead t bbox []).varMeta) hinfo rfl rfl hok hcapacity t
    exact ⟨v, start, count, steps, hv, hslab, hsuffices, neverOver_of_le hsuffices.total_le⟩
  · intro ts content dtype extents hinfo
    have hsuffices := zarr_suffices hinfo hok hcapacity ts content t
    exact ⟨hsuffices, neverOver_of_le hsuffices.total_le⟩

end Drivers

/-- The queue of a variable of three values a record, with a pool of buffers of eight bytes. -/
def recordStage (info : VariableInfo) : Stage where
  queue := .create 1 0 (NetCdf.text "T") info
  pool := .create PoolRun.pairArgs
  owner _ := none
  lastRead _ := none

/-- The three values of a record of `recordFile`. -/
def recordBytes : List UInt8 := [0, 0, 128, 63, 0, 0, 128, 63, 0, 0, 128, 63]

/-- The buffer of eight bytes is made one that takes the twelve of the record, and they are read
into it. -/
theorem read_buffer_suffices_record : ∃ info buf p,
    (NetCdf.recordDriver 2).describeVariable (NetCdf.text "T") = some info ∧
    (recordStage info).pool.acquireOnce (info.acquireBytes 8 none) true = (.got buf, p) ∧
    (NetCdf.recordDriver 2).tryRead (p.buf buf).capacityBytes
      ((recordStage info).queue.driverRead 0 none []).varMeta 0 none = .ok (recordBytes, 12) := by
  -- twelve bytes are asked of a pool whose buffers have eight
  obtain ⟨info, buf, p, hinfo, hgot, hslab, htotal⟩ : ∃ info buf p,
      (NetCdf.recordDriver 2).describeVariable (NetCdf.text "T") = some info ∧
      (recordStage info).pool.acquireOnce (info.acquireBytes 8 none) true = (.got buf, p) ∧
      NetCdf.hyperslab 2 info.shape 0 none = some ([0, 0], [1, 3], [1, 1]) ∧
      NetCdf.totalBytes 2 ((recordStage info).queue.driverRead 0 none []).varMeta [1, 3] = 12 :=
    ⟨_, _, _, rfl, rfl, by decide, by decide⟩
  obtain ⟨v, hv, hndims, hbytes⟩ : ∃ v,
      (NetCdf.recordDriver 2).file.vars (NetCdf.text "T") = some v ∧ v.dimids.length = 2 ∧
      (NetCdf.recordDriver 2).file.getVars v [0, 0] [1, 3] [1, 1] = some recordBytes :=
    ⟨_, rfl, by decide, by decide⟩
  have hok : validateBbox none (recordStage info).queue.info.shape = .ok := rfl
  obtain ⟨v', start, count, steps, hv', hslab', hsuffices, -⟩ :=
    (read_buffers_suffice (s := recordStage info) (.inl hgot) hok 0).1
      (NetCdf.recordDriver 2) hinfo
  obtain rfl : v = v' := Option.some.inj (hv.symm.trans hv')
  rw [hndims] at hslab' hsuffices
  obtain ⟨rfl, rfl, rfl⟩ : [0, 0] = start ∧ [1, 3] = count ∧ [1, 1] = steps := by
    simpa using hslab.symm.trans hslab'
  -- into this buffer the driver reads the whole record
  have hread := hsuffices.delivers _ hbytes
  rw [htotal] at hread
  exact ⟨info, buf, p, hinfo, hgot, hread⟩

end Amio
