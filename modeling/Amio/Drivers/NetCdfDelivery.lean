import Amio.Boundary.Bounds
import Amio.Boundary.Delivery
import Amio.Drivers.NetCdfRoundTrip

/-!
# From the host to a NetCDF file and back

The whole way of a payload: a host thread passes it to `write`, the staging pool holds a copy, a
worker hands the copy to the driver, and the driver puts it into the file. The driver takes one
mutex in every method, so its writes take effect one after another, but for two variables in any
order; the worker pool only keeps the order of each variable.

`written_is_read_back`: when the pool has drained, the file is closed and opened for reading, then a
variable that some host thread has written holds what the host passed to the last accepted write of
it.
-/

namespace Amio

open Traces (Agree part)
open NetCdf (lastWrite Library Driver)

/-- A driver call as the NetCDF driver sees it. -/
def DriverWrite.toWrite (w : DriverWrite) : NetCdf.Write := ⟨w.payload, w.varMeta⟩

/-- The calls of the driver for a dataset. -/
def WriteRun.datasetCalls (s : WriteRun) (id : UInt64) : List DriverWrite :=
  s.driverLog.filter (·.varMeta.datasetId = id)

/-- The name that call `c` was given. -/
def WriteRun.nameOf (s : WriteRun) (c : Nat) : List UInt8 := (s.calls c).args.varName

/-- Call `c` was accepted under the number `n`, as a write of `name` in dataset `id`. -/
structure WriteRun.Accepted (s : WriteRun) (id : UInt64) (name : List UInt8) (c n : Nat) :
    Prop where
  result : s.workers.pool.submitter c = .returned (.accepted n)
  dataset : (s.datasetOf c).datasetId = id
  name : s.nameOf c = name

/-! ### The last write -/

/-- What a file gives back of a name that was written. -/
theorem NetCdf.Laid.read_back {d : Driver} {ws : List NetCdf.Write} (hlaid : NetCdf.Laid d.file ws)
    (hmode : d.isOpen = true ∧ d.isWriteMode = false) {name : List UInt8} {last : NetCdf.Write}
    (hlast : lastWrite ws name = some last) (hvalid : last.Valid) :
    ∃ info, ∃ T : Nat, d.describeVariable name = some info ∧ info.totalTimesteps = T ∧
      ∀ capacity v, info.shape.extentList.prod * elementSize info.dtype ≤ capacity →
        v.name = name → v.dtype = info.dtype → v.shape = info.shape →
        d.readAll capacity v T = some last.src := by
  obtain ⟨var, hvar, hstored⟩ := hlaid.written _ _ hlast
  obtain ⟨info, hinfo, hdtype, hcases⟩ := hstored.describes hvalid hmode hvar
  refine ⟨info, ?_⟩
  -- a time axis in front is read row by row, any other variable in one read
  obtain ⟨n, rest, hext, -, htotal, hrank, hextents⟩ | ⟨htotal, hrank, hextents⟩ := hcases
  · refine ⟨n, hinfo, htotal, fun capacity v hcap hname hvtype hvshape => ?_⟩
    rw [hextents, hdtype] at hcap
    exact hstored.readAll_rows hvalid hmode (by rw [hname]; exact hvar) hext
      (hvtype.trans hdtype) (by rw [hvshape, hrank]) (by rw [hvshape, hextents]) hcap
  · refine ⟨1, hinfo, htotal, fun capacity v hcap hname hvtype hvshape => ?_⟩
    rw [hextents, hdtype] at hcap
    rw [Driver.readAll_eq (c := fun _ => last.src)]
    · exact congrArg some (List.append_nil _)
    · intro t _
      rw [hvalid.payload]
      exact hstored.read_whole hvalid hmode (by rw [hname]; exact hvar)
        (hvtype.trans hdtype) (by rw [hvshape, hrank]) (by rw [hvshape, hextents]) hcap t

/-- The last write to a name, and what comes after it. -/
theorem NetCdf.lastWrite_split {ws : List DriverWrite} {name : List UInt8} {last : NetCdf.Write}
    (h : lastWrite (ws.map DriverWrite.toWrite) name = some last) :
    ∃ us w vs, ws = us ++ w :: vs ∧ w.toWrite = last ∧ w.varMeta.name = name ∧
      ∀ v ∈ vs, v.varMeta.name ≠ name := by
  rw [lastWrite, ← List.map_reverse, List.find?_map] at h
  obtain ⟨w, hw, rfl⟩ := Option.map_eq_some_iff.mp h
  obtain ⟨hname, as, bs, heq, has⟩ := List.find?_eq_some_iff_append.mp hw
  refine ⟨bs.reverse, w, as.reverse, ?_, rfl, of_decide_eq_true hname, fun v hv => ?_⟩
  · rw [← List.reverse_reverse ws, heq]
    simp
  · have hname' : v.toWrite.name ≠ name := by simpa using has v (List.mem_reverse.mp hv)
    exact hname'

namespace IoRun

variable {s : IoRun}

/-- A call of the driver and the call of `write` that it is for. -/
theorem driverLog_spec (h : system.Reachable s) {w : DriverWrite} (hw : w ∈ s.writes.driverLog) :
    w.payload = (s.passed w.call).take (s.writes.calls w.call).args.payloadBytes ∧
      w.payload.length = (s.writes.calls w.call).args.payloadBytes ∧
      w.varMeta = s.writes.metaOf w.call ∧ w.dvKey = s.writes.keyOf w.call ∧
      (s.writes.calls w.call).args.check = .ok := by
  obtain ⟨hs, hd⟩ := delivering h
  obtain ⟨hpayload, hmeta, hcb⟩ := hs.writes.logged.of_mem hw
  have hpast := (hs.writes.toInv.past_of_cb hcb).1
  obtain ⟨hcopied, hlen⟩ := (invariant h).2.copied w.call (HostPc.hasCopied_of_past hpast)
  refine ⟨hpayload.trans hcopied, (congrArg List.length hpayload).trans hlen, hmeta, ?_,
    hd.checked w.call (HostPc.admitted_of_past hpast)⟩
  rw [DriverWrite.dvKey, hmeta]
  rfl

/-- What the driver is given is what its round trip asks for, when the size is the exact one. -/
theorem valid_of_mem (h : system.Reachable s) {w : DriverWrite} (hw : w ∈ s.writes.driverLog)
    (hfits : (s.writes.calls w.call).args.exactBytes < 2 ^ 64) : w.toWrite.Valid := by
  obtain ⟨-, hlen, hmeta, -, hcheck⟩ := driverLog_spec h hw
  obtain ⟨-, hsound, -⟩ | ⟨hinvalid, -⟩ := WriteArgs.check_eq (a := (s.writes.calls w.call).args)
  -- the arguments passed the checks, and their byte count is exact
  · have hbytes := WriteArgs.payloadBytes_eq hsound.2.2
    rw [Nat.mod_eq_of_lt hfits] at hbytes
    have hshape : w.varMeta.shape = (s.writes.calls w.call).args.shape := by rw [hmeta]; rfl
    have hdtype : w.varMeta.dtype = (s.writes.calls w.call).args.dtype := by rw [hmeta]; rfl
    refine ⟨?_, ?_, ?_, ?_⟩
    · exact hshape ▸ hsound.2.2
    · exact hdtype ▸ hsound.2.1
    · show w.payload.length = w.varMeta.shape.extentList.prod * elementSize w.varMeta.dtype
      rw [hlen, hbytes, hshape, hdtype]
      rfl
    · show w.payload.length < 2 ^ 64
      rw [hlen, hbytes]
      exact hfits
  -- a call that was refused has not called the driver
  · rw [hcheck] at hinvalid
    cases hinvalid

/-- The part of a dataset's calls under a key of that dataset. -/
theorem part_datasetCalls (id var : UInt64) :
    part DriverWrite.dvKey (s.writes.datasetCalls id) ⟨id, var⟩ =
      s.writes.driverCalls ⟨id, var⟩ := by
  rw [part, WriteRun.datasetCalls, List.filter_filter, WriteRun.driverCalls, part]
  refine List.filter_congr fun w _ => ?_
  simp only [DriverWrite.dvKey, DatasetVariableKey.mk.injEq, Bool.and_eq_decide, decide_eq_decide]
  simp only [decide_eq_true_eq]
  tauto

/-- A call of the driver for a dataset, and its place among those of its key. -/
theorem submitter_of_split (h : system.Reachable s) {k : DatasetVariableKey}
    {us vs : List DriverWrite} {w : DriverWrite} (heq : s.writes.driverCalls k = us ++ w :: vs) :
    s.writes.workers.pool.submitter w.call = .returned (.accepted us.length) := by
  obtain ⟨hs, hd⟩ := delivering h
  have hnumbered : (s.writes.driverCalls k).map
      (fun w => s.writes.workers.pool.submitter w.call) =
        (List.range (s.writes.driverCalls k).length).map fun i => .returned (.accepted i) :=
    hd.ordered.numbered hs.writes.toInv k
  have hget := congrArg (fun l => l[us.length]?) hnumbered
  simp only [heq, List.map_append, List.map_cons] at hget
  rw [List.getElem?_append_right (by simp)] at hget
  simpa using hget

/-- What is left of a variable when the pool has drained and the driver has taken its calls: the
last write to the name is the last accepted one, and the file holds it. -/
structure Delivered (s : IoRun) (id : UInt64) (name : List UInt8) (file : NetCdf.NcFile)
    (w : DriverWrite) (m : Nat) : Prop where
  accepted : s.writes.Accepted id name w.call m
  latest : ∀ c n, s.writes.Accepted id name c n → n ≤ m
  payload : w.payload = (s.passed w.call).take (s.writes.calls w.call).args.payloadBytes
  valid : w.toWrite.Valid
  stored : ∃ ws, NetCdf.Laid file ws ∧ lastWrite ws name = some w.toWrite

/-- **The last accepted write of a variable ends up in the file.** -/
theorem delivered (h : system.Reachable s) (hdrained : s.writes.workers.pool.Drained)
    {id : UInt64} {ws : List DriverWrite}
    (hws : Agree DriverWrite.dvKey ws (s.writes.datasetCalls id))
    (hfits : ∀ w ∈ ws, (s.writes.calls w.call).args.exactBytes < 2 ^ 64)
    (hcons : NetCdf.Consistent (ws.map DriverWrite.toWrite)) {lib : Library} {d₀ d d₁ : Driver}
    {attributes : List UInt8 → Option (List (List UInt8 × NetCdf.AttrValue))}
    (hopen : d₀.openWrite attributes = some d)
    (hrun : d.writeAll lib (ws.map DriverWrite.toWrite) = some d₁) {name : List UInt8} {c n : Nat}
    (hc : s.writes.Accepted id name c n) : ∃ w ∈ ws, ∃ m, s.Delivered id name d₁.file w m := by
  let k : DatasetVariableKey := ⟨id, varHash name⟩
  have hkey : ∀ {c n}, s.writes.Accepted id name c n → s.writes.keyOf c = k := fun hacc => by
    simp only [WriteRun.keyOf, WriteRun.requestOf, k, hacc.dataset]
    rw [← hacc.name]
    rfl
  have hmem : ∀ w ∈ ws, w ∈ s.writes.driverLog := fun w hw =>
    (List.mem_filter.mp (hws.perm.mem_iff.mp hw)).1
  have hpart : part DriverWrite.dvKey ws k = s.writes.driverCalls k :=
    (hws k).trans (part_datasetCalls id _)
  -- every accepted write of the variable is among those that the driver took
  have hasked : ∀ {c n}, s.writes.Accepted id name c n →
      ∃ w ∈ ws, w.call = c ∧ w.varMeta.name = name := by
    intro c n hacc
    obtain ⟨w, hw, rfl⟩ := driverCalls_of_drained h hdrained hacc.result
    rw [hkey hacc, ← hpart] at hw
    have hws' := (Traces.mem_part.mp hw).1
    exact ⟨w, hws', rfl, by rw [(driverLog_spec h (hmem w hws')).2.2.1]; exact hacc.name⟩
  obtain ⟨w₀, hw₀, -, hname₀⟩ := hasked hc
  have hvalid : ∀ w ∈ ws.map DriverWrite.toWrite, w.Valid := by
    intro w hw
    obtain ⟨v, hv, rfl⟩ := List.mem_map.mp hw
    exact valid_of_mem h (hmem v hv) (hfits v hv)
  have hempty : d.file = .empty := by
    unfold Driver.openWrite at hopen
    split at hopen
    · cases hopen
    · obtain rfl := Option.some.inj hopen
      rfl
  have hlaid : NetCdf.Laid d₁.file ([] ++ ws.map DriverWrite.toWrite) :=
    NetCdf.Laid.writeAll (by rw [hempty]; exact .empty) hvalid hcons hrun
  obtain ⟨last, hlast⟩ := NetCdf.exists_lastWrite
    (List.mem_map_of_mem (f := DriverWrite.toWrite) hw₀)
  have hname : w₀.toWrite.name = name := hname₀
  rw [hname] at hlast
  have hstored := hlast
  obtain ⟨us, w, vs, rfl, rfl, hwname, hvs⟩ := NetCdf.lastWrite_split hlast
  obtain ⟨hpayload, -, hmeta, -, -⟩ := driverLog_spec h (hmem w (by simp))
  have hwid : w.varMeta.datasetId = id := by
    have := hws.perm.mem_iff.mp (show w ∈ us ++ w :: vs by simp)
    simpa using (List.mem_filter.mp this).2
  have hwn : s.writes.nameOf w.call = name := by
    rw [← hwname, hmeta]
    rfl
  -- the last write to the name is the last of its key to the name, so it has the largest number
  have hwk : w.dvKey = k := by
    rw [DriverWrite.dvKey, hwid, hmeta]
    exact congrArg (fun x => (⟨id, varHash x⟩ : DatasetVariableKey)) hwn
  have hsplit : s.writes.driverCalls k =
      part DriverWrite.dvKey us k ++ w :: part DriverWrite.dvKey vs k := by
    rw [← hpart, Traces.part_append, ← hwk, Traces.part_cons_self]
  have hnumber := submitter_of_split h hsplit
  refine ⟨w, by simp, (part DriverWrite.dvKey us k).length, ⟨hnumber, ?_, hwn⟩,
    fun c' n' hacc => ?_, hpayload, hvalid _ (List.mem_map_of_mem (by simp)), _, hlaid, hstored⟩
  · rw [← hwid, hmeta]
    rfl
  · obtain ⟨w', hw', rfl, hw'name⟩ := hasked hacc
    have hw'k : w'.dvKey = k := by
      rw [(driverLog_spec h (hmem w' hw')).2.2.2.1, hkey hacc]
    have hresult := hacc.result
    rcases List.mem_append.mp hw' with hw' | hw'
    · obtain ⟨as, bs, heq⟩ := List.append_of_mem (Traces.mem_part.mpr ⟨hw', hw'k⟩)
      rw [heq, List.append_assoc, List.cons_append] at hsplit
      rw [submitter_of_split h hsplit] at hresult
      obtain rfl : as.length = n' := by simpa using hresult
      rw [heq]
      simp
    · rcases List.mem_cons.mp hw' with rfl | hw'
      · rw [hnumber] at hresult
        exact (by simpa using hresult : _ = n').ge
      · exact absurd hw'name (hvs w' hw')

/-- **What the host wrote is in the file.** The pool has drained, and the driver of dataset `id` has
taken its calls in some order `ws` that keeps the order of each key. Then after `close` and
`open_read` a variable that was written gives back, over its timesteps, what the host had passed to
the last accepted write of it. -/
theorem written_is_read_back (h : system.Reachable s) (hdrained : s.writes.workers.pool.Drained)
    {id : UInt64} {ws : List DriverWrite}
    (hws : Agree DriverWrite.dvKey ws (s.writes.datasetCalls id))
    (hfits : ∀ w ∈ ws, (s.writes.calls w.call).args.exactBytes < 2 ^ 64)
    (hcons : NetCdf.Consistent (ws.map DriverWrite.toWrite)) {lib : Library} {d₀ d d₁ : Driver}
    {attributes : List UInt8 → Option (List (List UInt8 × NetCdf.AttrValue))}
    (hopen : d₀.openWrite attributes = some d)
    (hrun : d.writeAll lib (ws.map DriverWrite.toWrite) = some d₁) {name : List UInt8} {c n : Nat}
    (hc : s.writes.Accepted id name c n) :
    ∃ d₂ last m info, ∃ T : Nat, d₁.close.openRead = some d₂ ∧ s.writes.Accepted id name last m ∧
      (∀ c' n', s.writes.Accepted id name c' n' → n' ≤ m) ∧
      d₂.describeVariable name = some info ∧ info.totalTimesteps = T ∧
      ∀ capacity v, info.shape.extentList.prod * elementSize info.dtype ≤ capacity →
        v.name = name → v.dtype = info.dtype → v.shape = info.shape →
        d₂.readAll capacity v T =
          some ((s.passed last).take (s.writes.calls last).args.payloadBytes) := by
  -- the last call of the name that the driver has taken is the last accepted one
  obtain ⟨w, -, m, hw⟩ := delivered h hdrained hws hfits hcons hopen hrun hc
  obtain ⟨ws', hlaid, hlast⟩ := hw.stored
  obtain ⟨d₂, hread, hmode, hfile⟩ : ∃ d₂, d₁.close.openRead = some d₂ ∧
      (d₂.isOpen = true ∧ d₂.isWriteMode = false) ∧ d₂.file = d₁.file := ⟨_, rfl, ⟨rfl, rfl⟩, rfl⟩
  obtain ⟨info, T, hinfo, htotal, hall⟩ :=
    NetCdf.Laid.read_back (hfile ▸ hlaid) hmode hlast hw.valid
  -- whose payload is what the host had passed
  have hpayload : w.toWrite.src = _ := hw.payload
  rw [hpayload] at hall
  exact ⟨d₂, w.call, m, info, T, hread, hw.accepted, hw.latest, hinfo, htotal, hall⟩

/-- A write of one byte to the variable `a`. -/
def byteArgs : WriteArgs := ⟨0, [97], false, some .u8, ⟨1, fun _ => 1, fun _ => 0⟩⟩

/-- The calls of the driver when `a` is written twice. -/
def overwrittenCalls : List DriverWrite :=
  [⟨0, [7], byteArgs.varMeta 0⟩, ⟨1, [8], byteArgs.varMeta 0⟩]

/-- The run in which `a` is written twice: what the file holds is the second byte. -/
theorem overwritten_spec : ∃ s, system.replay (fun _ _ => True) byteHost overwrittenOps = some s ∧
    s.writes.driverLog = overwrittenCalls ∧ system.Reachable s ∧ s.writes.workers.pool.Drained ∧
    s.writes.datasetCalls 0 = s.writes.driverLog ∧
    (∀ w ∈ s.writes.driverLog, (s.writes.calls w.call).args.exactBytes < 2 ^ 64) ∧
    s.writes.Accepted 0 [97] 1 1 ∧
    ∀ last m, s.writes.Accepted 0 [97] last m → 1 ≤ m →
      (s.passed last).take (s.writes.calls last).args.payloadBytes = [8] := by
  have hcalls : ((system.replay (fun _ _ => True) byteHost overwrittenOps).map fun s =>
      (s.writes.driverLog, (s.writes.calls 0).args, (s.writes.calls 1).args, s.passed 1)) =
      some (overwrittenCalls, byteArgs, byteArgs, [8]) := by
    decide +kernel
  have hpool : ((system.replay (fun _ _ => True) byteHost overwrittenOps).map fun s =>
      (decide s.writes.workers.pool.Drained, (s.writes.datasetOf 1).datasetId,
        s.writes.workers.pool.submitter 0, s.writes.workers.pool.submitter 1)) =
      some (true, 0, .returned (.accepted 0), .returned (.accepted 1)) := by
    decide +kernel
  obtain ⟨s, hs, hobs⟩ := Option.map_eq_some_iff.mp hcalls
  rw [hs, Option.map_some] at hpool
  simp only [Option.some.injEq, Prod.mk.injEq, decide_eq_true_eq] at hobs hpool
  obtain ⟨hlog, hargs₀, hargs, hpassed⟩ := hobs
  obtain ⟨hdrained, hid, hfirst, hsecond⟩ := hpool
  have hinit : system.init byteHost :=
    ⟨_, 1, _, _, by decide, rfl, rfl, rfl, fun _ => ⟨_, _, _, _, rfl⟩⟩
  have hreach : system.Reachable s := .of_replay _ hinit hs
  refine ⟨s, hs, hlog, hreach, hdrained, ?_, ?_,
    ⟨hsecond, hid, congrArg WriteArgs.varName hargs⟩, fun last m hlast hm => ?_⟩
  · rw [WriteRun.datasetCalls, hlog]
    rfl
  · rw [hlog]
    intro w hw
    rcases List.mem_pair.mp hw with rfl | rfl
    · rw [hargs₀]
      decide
    · rw [hargs]
      decide
  -- the driver took two calls, and the first of them has the number `0`
  · obtain ⟨w, hw, rfl⟩ := driverCalls_of_drained hreach hdrained hlast.result
    have hmem : w ∈ s.writes.driverLog := (Traces.mem_part.mp hw).1
    rw [hlog] at hmem
    rcases List.mem_pair.mp hmem with rfl | rfl
    · have hresult := hfirst.symm.trans hlast.result
      obtain rfl : 0 = m := by simpa using hresult
      omega
    · rw [hpassed, hargs]
      rfl

theorem consistent_overwrittenCalls :
    NetCdf.Consistent (overwrittenCalls.map DriverWrite.toWrite) := by
  intro w hw w' hw' _
  rcases List.mem_pair.mp hw with rfl | rfl <;> rcases List.mem_pair.mp hw' with rfl | rfl <;>
    exact ⟨rfl, rfl⟩

/-- Two writes of the variable `a`, of the bytes `7` and `8`. -/
theorem written_is_read_back_of_overwrite :
    ∃ s d d₁ d₂ info, ∃ T : Nat,
      system.replay (fun _ _ => True) byteHost overwrittenOps = some s ∧
      (Driver.mk false false (fun _ => none) .empty).openWrite (fun _ => none) = some d ∧
      d.writeAll NetCdf.permissive (s.writes.driverLog.map DriverWrite.toWrite) = some d₁ ∧
      d₁.close.openRead = some d₂ ∧ d₂.describeVariable [97] = some info ∧
      info.totalTimesteps = T ∧
      ∀ capacity v, info.shape.extentList.prod * elementSize info.dtype ≤ capacity →
        v.name = [97] → v.dtype = info.dtype → v.shape = info.shape →
        d₂.readAll capacity v T = some [8] := by
  obtain ⟨s, hs, hlog, hreach, hdrained, hdataset, hfits, hc, hbyte⟩ := overwritten_spec
  -- the library of the example takes both writes
  have hsome : ((Driver.mk true true (fun _ => none) .empty).writeAll NetCdf.permissive
      (s.writes.driverLog.map DriverWrite.toWrite)).isSome := by
    rw [hlog]
    decide +kernel
  obtain ⟨d₁, hrun⟩ := Option.isSome_iff_exists.mp hsome
  have hopen : (Driver.mk false false (fun _ => none) .empty).openWrite (fun _ => none) =
      some (.mk true true (fun _ => none) .empty) := rfl
  obtain ⟨d₂, last, m, info, T, hread, hlast, hmax, hinfo, htotal, hall⟩ :=
    written_is_read_back hreach hdrained (fun k => by rw [hdataset]) hfits
      (hlog ▸ consistent_overwrittenCalls) hopen hrun hc
  -- the last accepted write passed the byte 8
  rw [hbyte last m hlast (hmax 1 1 hc)] at hall
  exact ⟨s, _, d₁, d₂, info, T, hs, hopen, hrun, hread, hinfo, htotal, hall⟩

end IoRun

end Amio
