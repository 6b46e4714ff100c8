import Amio.Drivers.NetCdfDelivery
import Amio.Drivers.NetCdfPrefetch

/-!
# From a writing host to a reading one

Both halves of the program, with a netCDF file between them. On one side host threads call `write`,
and staging buffers, workers and the driver carry their payloads into the file; on the other the
file is opened again, a prefetch queue is made of what `describe_variable` reports, and threads call
`get_buffer` while workers read ahead.

`host_bytes_reach_reader`: a buffer that `get_buffer` hands out holds the bytes that the host had
passed to the last accepted write of the variable, at the timestep and inside the box that were
asked for.
-/

namespace Amio

open RowMajor
open Traces (Agree)
open NetCdf

namespace NetCdf

variable {d : Driver} {name : List UInt8} {v : NcVar} {info : VariableInfo} {w : Write} {t : Int}

/-- A timestep that is described is in the file, if the file has any. -/
theorem Described.record_lt (h : Described d name v info)
    (hlead : d.file.dropsLeading v = true → 0 < (d.file.lens v).headD 0)
    (ht : 0 ≤ t ∧ t < info.totalTimesteps) :
    d.file.dropsLeading v = true → t.toNat < (d.file.lens v).headD 0 := by
  intro hdrop
  have htotal := h.total
  rw [if_pos ⟨hdrop, hlead hdrop⟩] at htotal
  omega

/-- Where a timestep begins: a variable without a time axis has one. -/
theorem Described.position_eq (h : Described d name v info)
    (ht : 0 ≤ t ∧ t < info.totalTimesteps) (is : List Nat) :
    position (d.file.lens v) (leading (d.file.dropsLeading v) t.toNat ++ is) =
      t.toNat * info.shape.extentList.prod + position info.shape.extentList is := by
  have hlens := h.lens_eq
  have htotal := h.total
  cases hdrop : d.file.dropsLeading v with
  | false =>
    rw [hdrop] at hlens htotal
    have hzero : t.toNat = 0 := by
      rw [if_neg (by simp)] at htotal
      omega
    rw [hlens, hzero, Nat.zero_mul, Nat.zero_add]
    rfl
  | true =>
    rw [hdrop] at hlens
    rw [hlens]
    rfl

/-- A box inside a shape selects no more elements than the shape has. -/
theorem prod_selection_le {shape : Shape} {bbox : Option Bbox}
    (hinside : ∀ b ∈ bbox, b.Inside shape) :
    (selection shape bbox).2.1.prod ≤ shape.extentList.prod := by
  cases bbox with
  | none => exact le_rfl
  | some b =>
    have hb := hinside b rfl
    have hle : ∀ k ∈ dims b.rank, (b.extents k).toNat ≤ (shape.extents k).toNat := by
      intro k hk
      obtain ⟨hext, hstride, hoffset, hlast⟩ := boxFits_of_inside hb hk
      -- with a stride of at least one a box spans no less than its extent
      have hspan : b.extents k - 1 ≤ (b.extents k - 1) * b.strides k :=
        le_mul_of_one_le_right (by omega) (by omega)
      rw [Bbox.last] at hlast
      omega
    show b.extentList.prod ≤ _
    rw [Bbox.extentList, Shape.extentList, ← (Bbox.inside_iff.mp hb).1]
    exact List.prod_le_prod' hle

section Stored

variable (h : Stored d.file w v) (hvalid : w.Valid)
include h

/-- The lengths of the dimensions are the extents. -/
theorem Stored.lens_eq : d.file.lens v = w.extents := h.lens

/-- What is reported of a variable that was written from 64-bit extents. -/
theorem Stored.isMachine (hmachine : w.varMeta.shape.IsMachine)
    (hinfo : d.describeVariable name = some info) (hv : d.file.vars name = some v) :
    IsMachine info := by
  obtain ⟨v', hd⟩ := described hinfo
  obtain rfl : v' = v := Option.some.inj (hd.isVar.symm.trans hv)
  -- the lengths of the dimensions are the extents that were written
  have hlt : ∀ e ∈ 0 :: d.file.lens v', e < 2 ^ 63 := by
    intro e he
    rcases List.mem_cons.mp he with rfl | he
    · exact Nat.two_pow_pos 63
    · rw [h.lens_eq] at he
      obtain ⟨k, -, rfl⟩ := List.mem_map.mp he
      have := (hmachine k).2
      omega
  refine ⟨fun k => ?_, ?_⟩
  · obtain ⟨e, he, hk⟩ := hd.entry k
    have := hlt e he
    exact ⟨by omega, by omega⟩
  -- the number of timesteps is the leading length, or one
  · have hhead : (d.file.lens v').headD 0 ∈ 0 :: d.file.lens v' := by
      cases d.file.lens v' <;> simp
    have := hlt _ hhead
    rw [hd.total]
    split <;> exact ⟨by omega, by omega⟩

include hvalid

/-- The data has the type of the variable. -/
theorem Stored.typed : d.file.Typed v := by
  intro is his
  rw [h.lens_eq] at his
  rw [h.length_content hvalid (mem_cells.mpr his), size_eq h.type]

/-- The elements of a timestep of what was written. -/
theorem Stored.element_eq (hinfo : d.describeVariable name = some info)
    (hv : d.file.vars name = some v) (ht : 0 ≤ t ∧ t < info.totalTimesteps) {is : List Nat}
    (his : Within info.shape.extentList is) :
    v.content (leading (d.file.dropsLeading v) t.toNat ++ is) =
      element (elementSize info.dtype) w.src
        (t.toNat * info.shape.extentList.prod + position info.shape.extentList is) := by
  obtain ⟨v', hd⟩ := described hinfo
  obtain rfl : v' = v := Option.some.inj (hd.isVar.symm.trans hv)
  have hpos : ∀ e ∈ d.file.lens v', 0 < e := h.lens_eq ▸ hvalid.pos
  have hlead : d.file.dropsLeading v' = true → 0 < (d.file.lens v').headD 0 := by
    intro hdrop
    have hlens := hd.lens_eq
    rw [hdrop] at hlens
    exact hpos _ (by rw [hlens]; simp [leading])
  have hwithin := hd.within_lens (hd.record_lt hlead ht) his
  rw [h.lens_eq] at hwithin
  rw [h.content _ (mem_cells.mpr hwithin), ← h.lens_eq, hd.position_eq ht,
    elementSize_of_describe hv hinfo, size_eq h.type]
  rfl

/-- A selection has fewer bytes than the payload. -/
theorem Stored.selection_lt (hinfo : d.describeVariable name = some info)
    (hv : d.file.vars name = some v) {bbox : Option Bbox}
    (hinside : ∀ b ∈ bbox, b.Inside info.shape) :
    (selection info.shape bbox).2.1.prod * elementSize info.dtype < 2 ^ 64 := by
  obtain ⟨v', hd⟩ := described hinfo
  obtain rfl : v' = v := Option.some.inj (hd.isVar.symm.trans hv)
  have hpos : ∀ e ∈ d.file.lens v', 0 < e := h.lens_eq ▸ hvalid.pos
  have hshape : info.shape.extentList.prod ≤ (d.file.lens v').prod := by
    rw [hd.extents]
    refine Nat.le_of_dvd (List.prod_pos_iff_forall_pos_nat.mpr hpos) ?_
    exact (List.drop_sublist _ _).prod_dvd_prod
  have hmemory := hvalid.memory
  rw [hvalid.payload, ← h.lens_eq, ← size_eq h.type, ← elementSize_of_describe hv hinfo] at hmemory
  exact (Nat.mul_le_mul_right _ ((prod_selection_le hinside).trans hshape)).trans_lt hmemory

end Stored

end NetCdf

namespace IoRun

variable {s : IoRun}

/-- **The whole way.** A host thread has written a variable, the pool has drained, and the driver of
the dataset has taken its calls in an order `ws` that keeps the order of each key. The file is
closed and opened for reading, and the variable is found. Then in every run of a queue for it with
this driver, a `get_buffer` that returns `AMIO_OK` has a buffer with the bytes that the host had
passed to the last accepted write: of the timestep and inside the box that were asked for. -/
theorem host_bytes_reach_reader (h : system.Reachable s)
    (hdrained : s.writes.workers.pool.Drained) {id : UInt64} {ws : List DriverWrite}
    (hws : Agree DriverWrite.dvKey ws (s.writes.datasetCalls id))
    (hfits : ∀ w ∈ ws, (s.writes.calls w.call).args.exactBytes < 2 ^ 64)
    (hmachine : ∀ w ∈ ws, w.varMeta.shape.IsMachine)
    (hcons : Consistent (ws.map DriverWrite.toWrite)) {lib : Library} {d₀ d d₁ : Driver}
    {attributes : List UInt8 → Option (List (List UInt8 × NetCdf.AttrValue))}
    (hopen : d₀.openWrite attributes = some d)
    (hrun : d.writeAll lib (ws.map DriverWrite.toWrite) = some d₁) {name : List UInt8} {c n : Nat}
    (hc : s.writes.Accepted id name c n) :
    ∃ d₂ last m info, d₁.close.openRead = some d₂ ∧ s.writes.Accepted id name last m ∧
      (∀ c' n', s.writes.Accepted id name c' n' → n' ≤ m) ∧
      d₂.describeVariable name = some info ∧
      ∀ (q : PrefetchRun) (r : Nat) (out : Option Nat),
        PrefetchRun.system.Reach
          (fun q op => q.timeoutMatches op = true ∧ q.AnsweredBy d₂.answers op) q →
        q.stage.queue.varName = name → q.stage.queue.info = info →
        PrefetchRun.Asked info (q.calls r) → (q.calls r).pc = .returned .ok out →
        (q.calls r).released = false →
        ∃ i, out = some i ∧ q.stage.owner i = some (.caller r) ∧
          Elements info (q.calls r).bbox
            (fun is => element (elementSize info.dtype)
              ((s.passed last).take (s.writes.calls last).args.payloadBytes)
              ((q.calls r).timestep.toNat * info.shape.extentList.prod +
                position info.shape.extentList is))
            (q.stage.pool.payload i) := by
  obtain ⟨w, hw, m, hdelivered⟩ := delivered h hdrained hws hfits hcons hopen hrun hc
  obtain ⟨ws', hlaid, hlast⟩ := hdelivered.stored
  obtain ⟨d₂, hread, hmode, hfile⟩ : ∃ d₂, d₁.close.openRead = some d₂ ∧
      (d₂.isOpen = true ∧ d₂.isWriteMode = false) ∧ d₂.file = d₁.file := ⟨_, rfl, ⟨rfl, rfl⟩, rfl⟩
  rw [← hfile] at hlaid
  obtain ⟨v, hv, hstored⟩ := hlaid.written _ _ hlast
  obtain ⟨info, hinfo, -⟩ := hstored.describes hdelivered.valid hmode hv
  have hinfoMachine := hstored.isMachine (hmachine w hw) hinfo hv
  refine ⟨d₂, w.call, m, info, hread, hdelivered.accepted, hdelivered.latest, hinfo, ?_⟩
  rintro q r out hq rfl rfl hasked hpc hheld
  have hinside := inside_of_accepted hinfoMachine.shape hasked.accepted hasked.unwrapped
  obtain ⟨i, capacity, hi, howner, hanswer⟩ := PrefetchRun.holds_answer hq hpc hasked.kind hheld
  have hall := answers_elements hinfoMachine hv (hstored.typed hdelivered.valid) hinfo
    hasked.accepted hasked.unwrapped hasked.timestep rfl rfl rfl
    (hstored.selection_lt hdelivered.valid hinfo hv hinside) hanswer
  refine ⟨i, hi, howner, hall.length, hall.within, fun is his => (hall.element is his).trans ?_⟩
  -- the element of the variable is the one that the host had passed
  rw [hstored.element_eq hdelivered.valid hinfo hv hasked.timestep (hall.within is his),
    ← hdelivered.payload]
  rfl

/-- The driver that reads the file with the two writes of `a`. -/
def overwrittenDriver : Option Driver :=
  ((Driver.mk true true (fun _ => none) .empty).writeAll permissive
    (overwrittenCalls.map DriverWrite.toWrite)).bind fun d => d.close.openRead

theorem machine_overwrittenCalls : ∀ w ∈ overwrittenCalls, w.varMeta.shape.IsMachine := by
  intro w hw k
  have hone : IsInt64 1 := by decide
  rcases List.mem_pair.mp hw with rfl | rfl <;> exact hone

/-- The whole of timestep `0` is read, and a worker fetches it. -/
def wholeReadOps (payload : List UInt8) : List ReadOp :=
  [.begin .getBuffer 0 none, .call 0, .call 0, .submit 0 false] ++
    PrefetchRun.fetchOps 0 payload ++ [.call 0]

/-- Two writes of the variable `a`, of the bytes `7` and `8`, and a reader. -/
theorem host_bytes_reach_reader_of_overwrite :
    ∃ s d₂ info q i, system.replay (fun _ _ => True) byteHost overwrittenOps = some s ∧
      s.writes.driverLog = overwrittenCalls ∧ overwrittenDriver = some d₂ ∧
      d₂.describeVariable [97] = some info ∧
      PrefetchRun.system.replay
          (fun q op => q.timeoutMatches op = true ∧ q.AnsweredBy d₂.answers op)
        (.start 1 1 [97] info PoolRun.pairArgs) (wholeReadOps [8]) = some q ∧
      (q.calls 0).pc = .returned .ok (some i) ∧ element 1 (q.stage.pool.payload i) 0 = [8] := by
  obtain ⟨s, hs, hlog, hreach, hdrained, hdataset, hfits, hc, hbyte⟩ := overwritten_spec
  -- the file is opened for reading, described and read through a queue
  have hread : (overwrittenDriver.bind fun d => (d.describeVariable [97]).bind fun info =>
      (PrefetchRun.system.replay
          (fun q op => q.timeoutMatches op = true ∧ q.AnsweredBy d.answers op)
          (.start 1 1 [97] info PoolRun.pairArgs) (wholeReadOps [8])).map fun q =>
        (q.calls 0, q.stage.queue.varName, decide (q.stage.queue.info = info))) =
      some (⟨.getBuffer, 0, none, .returned .ok (some 0), false⟩, [97], true) := by
    decide +kernel
  -- one element of one byte, in one timestep
  have hreport : (overwrittenDriver.bind fun d => (d.describeVariable [97]).map fun info =>
      (elementSize info.dtype, info.totalTimesteps, info.shape.extentList)) =
      some (1, 1, [1]) := by
    decide +kernel
  obtain ⟨d₂, hd₂, hread⟩ := Option.bind_eq_some_iff.mp hread
  obtain ⟨info, hinfo, hread⟩ := Option.bind_eq_some_iff.mp hread
  obtain ⟨q, hq, hobs⟩ := Option.map_eq_some_iff.mp hread
  rw [hd₂, Option.bind_some, hinfo, Option.map_some] at hreport
  simp only [Option.some.injEq, Prod.mk.injEq, decide_eq_true_eq] at hobs hreport
  obtain ⟨hcall, hname, hqinfo⟩ := hobs
  obtain ⟨hsize, htotal, hext⟩ := hreport
  obtain ⟨d₁, hd₁, hclose⟩ := Option.bind_eq_some_iff.mp hd₂
  obtain ⟨d₂', last, m, info', hclose', hlast, hmax, hinfo', hall⟩ :=
    host_bytes_reach_reader hreach hdrained (fun k => by rw [hdataset]) hfits
      (by rw [hlog]; exact machine_overwrittenCalls) (hlog ▸ consistent_overwrittenCalls)
      (rfl : (Driver.mk false false (fun _ => none) .empty).openWrite (fun _ => none) = _)
      (hlog ▸ hd₁) hc
  obtain rfl : d₂ = d₂' := Option.some.inj (hclose.symm.trans hclose')
  obtain rfl : info = info' := Option.some.inj (hinfo.symm.trans hinfo')
  have hasked : PrefetchRun.Asked info (q.calls 0) := by
    rw [hcall]
    exact ⟨rfl, by rw [htotal]; decide, rfl, by simp⟩
  obtain ⟨i, hi, -, helements⟩ := hall q 0 (some 0)
    (.of_replay _ (.init ⟨_, _, _, _, _, rfl⟩) hq) hname hqinfo hasked (by rw [hcall])
    (by rw [hcall])
  -- what is in the buffer is what the host had passed
  have hslice := helements.element
  rw [hbyte last m hlast (hmax 1 1 hc)] at hslice
  simp only [hcall, hsize, selection, selectedExtents_none, hext] at hslice
  refine ⟨s, d₂, info, q, i, hs, hlog, hd₂, hinfo, hq, by rw [hcall, hi], ?_⟩
  exact hslice [0] (by decide)

end IoRun

end Amio
