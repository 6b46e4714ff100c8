import Amio.Boundary.WriteInvariant

/-!
# Buffers, driver calls and failure flags of the write path

Three further invariants, each stated call by call: a call owns its staging buffer from `acquire` to
the release in its callback, and the buffer holds what was copied (`Staged`); the driver was asked
once for a write whose callback got that far, with that payload (`Logged`); and a write whose driver
threw has left its mark on the dataset (`Failing`).
-/

namespace Amio

/-- The driver has been asked to write. -/
def CallbackPc.asked : CallbackPc → Bool
  | .waiting | .entered => false
  | _ => true

/-- The callback has set the flags of its write. -/
def CallbackPc.settled : CallbackPc → Bool
  | .flagged | .released | .finished => true
  | _ => false

/-! ### Staging buffers -/

/-- The call owns a staging buffer. -/
def WriteCall.Holds (x : WriteCall) : Prop := x.host.hasBuffer = true ∧ x.cb.gaveBack = false

/-- The call owns a staging buffer with its payload in it. -/
def WriteCall.HoldsCopy (x : WriteCall) : Prop := x.host.hasCopied = true ∧ x.cb.gaveBack = false

/-- Past `submit_write` the bytes have been copied. -/
theorem HostPc.hasCopied_of_past {pc : HostPc} (h : pc.past = true) : pc.hasCopied = true := by
  cases pc <;> simp_all [HostPc.past, HostPc.hasCopied]

/-- A call that has copied holds its buffer. -/
theorem WriteCall.HoldsCopy.holds {x : WriteCall} (h : x.HoldsCopy) : x.Holds := by
  refine ⟨?_, h.2⟩
  have := h.1
  revert this
  cases x.host <;> simp [HostPc.hasCopied, HostPc.hasBuffer]

/-- The buffer of call `c`. -/
structure StagedCall (p : StagingPool) (owner : Nat → Option Holder) (c : Nat) (x : WriteCall) :
    Prop where
  owns : x.Holds → owner x.buf = some (.write c)
  payload : x.HoldsCopy → p.payload x.buf = x.snapshot

section StagedCall

variable {p p' : StagingPool} {owner owner' : Nat → Option Holder} {c : Nat} {x x' : WriteCall}

/-- Others do something with the pool. -/
theorem StagedCall.frame (h : StagedCall p owner c x)
    (hkeep : ∀ b, owner b = some (.write c) →
      owner' b = some (.write c) ∧ p'.buf b = p.buf b) : StagedCall p' owner' c x where
  owns := fun hx => (hkeep _ (h.owns hx)).1
  payload := fun hx => by
    rw [StagingPool.payload_congr (hkeep _ (h.owns hx.holds)).2, h.payload hx]

/-- The call moves on with its buffer. -/
theorem StagedCall.move (h : StagedCall p owner c x) (hbuf : x'.buf = x.buf)
    (hsnap : x'.snapshot = x.snapshot) (hholds : x'.Holds → x.Holds)
    (hcopy : x'.HoldsCopy → x.HoldsCopy) : StagedCall p owner c x' where
  owns := fun hx => hbuf ▸ h.owns (hholds hx)
  payload := fun hx => by rw [hbuf, hsnap, h.payload (hcopy hx)]

end StagedCall

namespace WriteRun

variable {s s' : WriteRun}

structure Staged (s : WriteRun) : Prop where
  owned : s.staging.OwnedBy s.owner
  call : ∀ c, StagedCall s.staging s.owner c (s.calls c)

/-- A call moves on with its buffer, the pool staying as it is. -/
theorem Staged.setCall (hs : Staged s) {c : Nat} {x : WriteCall} (hstaging : s'.staging = s.staging)
    (howner : s'.owner = s.owner) (hcalls : s'.calls = Function.update s.calls c x)
    (hx : StagedCall s.staging s.owner c x) : Staged s' := by
  refine ⟨by rw [hstaging, howner]; exact hs.owned, ?_⟩
  rw [hstaging, howner, hcalls]
  exact (Function.forall_update_iff s.calls (StagedCall s.staging s.owner)).mpr
    ⟨hx, fun d _ => hs.call d⟩

/-- Something happens to buffer `b` and to call `c`, and to no other buffer that is owned. -/
theorem Staged.touch (hs : Staged s) {c : Nat} {x : WriteCall}
    (howned : s'.staging.OwnedBy s'.owner) (hcalls : s'.calls = Function.update s.calls c x)
    (hx : StagedCall s'.staging s'.owner c x)
    (hkeep : ∀ b d, d ≠ c → s.owner b = some (.write d) →
      s'.owner b = some (.write d) ∧ s'.staging.buf b = s.staging.buf b) : Staged s' := by
  refine ⟨howned, ?_⟩
  rw [hcalls]
  exact (Function.forall_update_iff s.calls (StagedCall s'.staging s'.owner)).mpr
    ⟨hx, fun d hd => (hs.call d).frame fun b hb => hkeep b d hd hb⟩

/-- Others do something with the pool. -/
theorem Staged.other (hs : Staged s) {p' : StagingPool} {owner' : Nat → Option Holder}
    {h : HandleTable Nat} (howned : p'.OwnedBy owner')
    (hkeep : ∀ b d, s.owner b = some (.write d) →
      owner' b = some (.write d) ∧ p'.buf b = s.staging.buf b) :
    Staged { s with staging := p', owner := owner', handles := h } :=
  ⟨howned, fun c => (hs.call c).frame fun b hb => hkeep b c hb⟩

theorem Staged.initial (a : PoolArgs) (n : Nat) (bp : BackpressureConfig) (ids : Nat → UInt64) :
    Staged (start a n bp ids) :=
  ⟨.create Holder a, fun _ => ⟨fun h => absurd h.1 (by simp [start, HostPc.hasBuffer, HostPc.past]),
    fun h => absurd h.1 (by simp [start, HostPc.hasCopied, HostPc.past])⟩⟩

/-- **Every step keeps the buffers with their calls.** -/
theorem Staged.step {op : WriteOp} (hi : Inv s) (hs : Staged s) (h : Step s op s') : Staged s' := by
  cases h with
  -- a buffer changes hands in `got` and `gaveBack` only; elsewhere the call carries it along
  | call args =>
    have hno : ∀ {x : WriteCall}, x.host.hasBuffer = false → ¬ x.Holds := by
      intro x hx h
      rw [h.1] at hx
      cases hx
    exact hs.setCall rfl rfl rfl ⟨fun hx => absurd hx (hno args.entry_hasBuffer),
      fun hx => absurd hx.holds (hno args.entry_hasBuffer)⟩
  | @got c b op p' hc pc acq =>
    obtain ⟨r, alloc, acq⟩ := acq
    obtain ⟨hnone, hun, hown⟩ := hs.owned.got acq
    refine hs.touch (hown (.write c)) rfl ⟨fun _ => Function.update_self .., ?_⟩ ?_
    · exact fun hx => absurd hx.1 (by simp [HostPc.hasCopied, HostPc.past])
    · intro b' d hd hb'
      have hne : b' ≠ b := by rintro rfl; rw [hnone] at hb'; cases hb'
      exact ⟨(Function.update_of_ne hne _ _).trans hb', hun b' (by simp [hb'])⟩
  | @denied c op p' pc' hc pc next acq =>
    obtain ⟨r, alloc, res, acq, hne⟩ := acq
    obtain ⟨hown, hun⟩ := hs.owned.denied acq hne
    refine hs.touch hown rfl ⟨fun hx => ?_, fun hx => ?_⟩
      fun b' d _ hb' => ⟨hb', hun b' (by simp [hb'])⟩
    · have := hx.1
      rcases next with rfl | rfl | rfl <;> simp [HostPc.hasBuffer, HostPc.past] at this
    · have := hx.1
      rcases next with rfl | rfl | rfl <;> simp [HostPc.hasCopied, HostPc.past] at this
  -- the `memcpy` goes to a buffer this call owns, so no other call sees it
  | @copied c bytes hc pc len =>
    have hcb := (hi.calls c).early (by rw [pc]; rfl)
    have howns := (hs.call c).owns ⟨by rw [pc]; rfl, by rw [hcb]; rfl⟩
    obtain ⟨hown, hpay, hframe⟩ := hs.owned.fill howns bytes
    refine hs.touch hown rfl ⟨fun _ => howns, fun _ => hpay⟩ fun b' d hd hb' => ⟨hb', hframe b' ?_⟩
    rintro rfl
    rw [howns] at hb'
    exact hd (Holder.write.inj (Option.some.inj hb')).symm
  | @inserted c hc pc =>
    exact hs.setCall rfl rfl rfl ((hs.call c).move rfl rfl
      (fun h => ⟨by rw [pc]; rfl, h.2⟩) (fun h => ⟨by rw [pc]; rfl, h.2⟩))
  | @entered c r hc pc hr =>
    exact hs.setCall rfl rfl rfl ((hs.call c).move rfl rfl
      (fun h => ⟨by rw [pc]; rfl, h.2⟩) (fun h => ⟨by rw [pc]; rfl, h.2⟩))
  | @submitted c res hc pc hsub =>
    exact hs.setCall rfl rfl rfl ((hs.call c).move rfl rfl
      (fun h => ⟨by rw [pc]; rfl, h.2⟩) (fun h => ⟨by rw [pc]; rfl, h.2⟩))
  | @counted c hc pc =>
    exact hs.setCall rfl rfl rfl ((hs.call c).move rfl rfl
      (fun h => ⟨by rw [pc]; rfl, h.2⟩) (fun h => ⟨by rw [pc]; rfl, h.2⟩))
  | @returned c hc pc =>
    exact hs.setCall rfl rfl rfl ((hs.call c).move rfl rfl
      (fun h => ⟨by rw [pc]; rfl, h.2⟩) (fun h => ⟨by rw [pc]; rfl, h.2⟩))
  | @began w c ok run pc | @answered w c ok run pc | @completed w c ok run pc
  | @failed w c ok run pc | @coded w c ok run pc | @marked w c ok run pc
  | @firstCode w c ok run pc =>
    exact hs.setCall rfl rfl rfl ((hs.call c).move rfl rfl
      (fun h => ⟨h.1, by rw [pc]; rfl⟩) (fun h => ⟨h.1, by rw [pc]; rfl⟩))
  -- the callback runs, so its call is past `submit_write` and still owns the buffer
  | @gaveBack w c ok run pc =>
    obtain ⟨hpast, -⟩ := hi.past_of_cb (hi.of_running run)
    have howns := (hs.call c).owns ⟨HostPc.hasBuffer_of_past hpast, by rw [pc]; rfl⟩
    obtain ⟨hown, -, hframe⟩ := hs.owned.release howns
    refine hs.touch hown rfl ⟨fun hx => absurd hx.2 (by simp [CallbackPc.gaveBack]),
      fun hx => absurd hx.2 (by simp [CallbackPc.gaveBack])⟩ fun b' d hd hb' => ?_
    have hne : b' ≠ (s.calls c).buf := by
      rintro rfl
      rw [howns] at hb'
      exact hd (Holder.write.inj (Option.some.inj hb')).symm
    exact ⟨(Function.update_of_ne hne _ _).trans hb', hframe b' hne⟩
  | @subtracted w c ok run pc =>
    exact hs.setCall rfl rfl rfl ((hs.call c).move rfl rfl
      (fun h => absurd h.2 (by simp [CallbackPc.gaveBack]))
      (fun h => absurd h.2 (by simp [CallbackPc.gaveBack])))
  | @locked w c t r hr hw hcb =>
    have hwaiting := hi.waiting_of_dequeued hw hcb
    exact hs.setCall rfl rfl rfl ((hs.call c).move rfl rfl
      (fun h => ⟨h.1, by rw [hwaiting]; rfl⟩) (fun h => ⟨h.1, by rw [hwaiting]; rfl⟩))
  | otherGot acq =>
    obtain ⟨hnone, hun, hown⟩ := hs.owned.got acq
    refine hs.other (hown .other) fun b' d hb' => ?_
    exact ⟨(Function.update_of_ne (by rintro rfl; rw [hnone] at hb'; cases hb') _ _).trans hb',
      hun b' (by simp [hb'])⟩
  | otherDenied acq hne =>
    obtain ⟨hown, hun⟩ := hs.owned.denied acq hne
    exact hs.other hown fun b' d hb' => ⟨hb', hun b' (by simp [hb'])⟩
  | @otherRelease b own =>
    obtain ⟨hown, -, hframe⟩ := hs.owned.release own
    refine hs.other hown fun b' d hb' => ?_
    have hne : b' ≠ b := by rintro rfl; rw [own] at hb'; cases hb'
    exact ⟨(Function.update_of_ne hne _ _).trans hb', hframe b' hne⟩
  | @otherFill b bytes own =>
    obtain ⟨hown, -, hframe⟩ := hs.owned.fill own bytes
    refine hs.other hown fun b' d hb' => ⟨hb', hframe b' ?_⟩
    rintro rfl
    rw [own] at hb'
    cases hb'
  | sectioned | advanced | otherHandles | flushBegan | flushRead | flushTimeout | flushFinish =>
    exact ⟨hs.owned, hs.call⟩

/-! ### Calls of the driver -/

/-- No step changes the id of a dataset. -/
theorem Step.datasetId {op : WriteOp} (h : Step s op s') (d : Nat) :
    (s'.datasets d).datasetId = (s.datasets d).datasetId := by
  have hset : ∀ (e : Nat) (x : DatasetRecord), x.datasetId = (s.datasets e).datasetId →
      (Function.update s.datasets e x d).datasetId = (s.datasets d).datasetId :=
    fun e x hx => Lts.apply_update_eq DatasetRecord.datasetId hx d
  cases h with
  | counted | marked | firstCode | subtracted => exact hset _ _ rfl
  | _ => rfl

/-- The driver was asked once for each write whose callback got that far, with the bytes that were
copied from the host. -/
def Logged (s : WriteRun) : Prop :=
  ∀ c, s.driverLog.filter (·.call = c) =
    if (s.calls c).cb.asked then [⟨c, (s.calls c).snapshot, s.metaOf c⟩] else []

theorem Logged.initial (a : PoolArgs) (n : Nat) (bp : BackpressureConfig) (ids : Nat → UInt64) :
    Logged (start a n bp ids) :=
  fun _ => rfl

theorem metaOf_congr {c : Nat} (hargs : (s'.calls c).args = (s.calls c).args)
    (hids : ∀ d, (s'.datasets d).datasetId = (s.datasets d).datasetId) :
    s'.metaOf c = s.metaOf c := by
  simp only [metaOf, datasetOf, hargs, hids]

/-- A step that asks the driver nothing. -/
theorem Logged.setCall (hs : Logged s) {c : Nat} {x : WriteCall}
    (hids : ∀ d, (s'.datasets d).datasetId = (s.datasets d).datasetId)
    (hlog : s'.driverLog = s.driverLog) (hcalls : s'.calls = Function.update s.calls c x)
    (hasked : x.cb.asked = (s.calls c).cb.asked)
    (hsame : x.cb.asked = true → x.snapshot = (s.calls c).snapshot ∧ x.args = (s.calls c).args) :
    Logged s' := by
  intro d
  rw [hlog, hs d]
  -- the entry of the call that moved, and those of the others
  by_cases hd : d = c
  · subst hd
    have hself : s'.calls d = x := by rw [hcalls, Function.update_self]
    rw [hself, hasked]
    split
    · next hask =>
      obtain ⟨hsnap, hargs⟩ := hsame (hasked.trans hask)
      rw [hsnap, metaOf_congr (hself ▸ hargs) hids]
    · rfl
  · have hother : s'.calls d = s.calls d := by rw [hcalls, Function.update_of_ne hd]
    rw [hother, metaOf_congr (by rw [hother]) hids]

/-- A step that calls no driver. -/
theorem Logged.same (hs : Logged s) (hcalls : s'.calls = s.calls)
    (hids : ∀ d, (s'.datasets d).datasetId = (s.datasets d).datasetId)
    (hlog : s'.driverLog = s.driverLog) : Logged s' := by
  intro d
  rw [hlog, hcalls, hs d, metaOf_congr (by rw [hcalls]) hids]

/-- **Every step keeps the log of driver calls.** -/
theorem Logged.step {op : WriteOp} (hi : Inv s) (hst : Staged s) (hs : Logged s)
    (h : Step s op s') : Logged s' := by
  have hids := h.datasetId
  -- before `submit_write` the arguments may still change, and the driver was not asked
  have hearly : ∀ c, (s.calls c).host.past = false → (s.calls c).cb.asked = false :=
    fun c hc => by rw [(hi.calls c).early hc]; rfl
  cases h with
  | call args =>
    exact hs.setCall hids rfl rfl (hearly _ hi.next_not_past).symm nofun
  | @copied c bytes hc pc len =>
    have hask := hearly c (by rw [pc]; rfl)
    exact hs.setCall hids rfl rfl rfl fun h => by rw [hask] at h; cases h
  | @got c | @denied c | @inserted c | @entered c | @submitted c | @counted c | @returned c =>
    exact hs.setCall hids rfl rfl rfl fun _ => ⟨rfl, rfl⟩
  | @began w c ok run pc =>
    -- `Staged` says that the buffer still holds the snapshot when the driver is asked
    obtain ⟨hpast, -⟩ := hi.past_of_cb (hi.of_running run)
    have hpay := (hst.call c).payload ⟨HostPc.hasCopied_of_past hpast, by rw [pc]; rfl⟩
    intro d
    by_cases hd : d = c
    · subst hd
      -- this is the only step that asks the driver for `d`, and it had not been asked before
      have hnone := hs d
      rw [pc] at hnone
      simp only [WriteRun.setCall, List.filter_append, hnone, Function.update_self, hpay]
      simp only [CallbackPc.asked, metaOf, datasetOf, Function.update_self]
      simp
    · have hd' := hs d
      simp only [WriteRun.setCall, List.filter_append, Function.update_of_ne hd, hd', metaOf,
        datasetOf]
      simp [Ne.symm hd]
  | @answered w c ok run pc =>
    refine hs.setCall hids rfl rfl ?_ fun _ => ⟨rfl, rfl⟩
    rw [pc]
    cases ok <;> rfl
  | @completed w c ok run pc | @failed w c ok run pc | @coded w c ok run pc | @marked w c ok run pc
  | @firstCode w c ok run pc | @gaveBack w c ok run pc | @subtracted w c ok run pc =>
    exact hs.setCall hids rfl rfl (by rw [pc]; rfl) fun _ => ⟨rfl, rfl⟩
  | @locked w c t r hr hw hcb =>
    have hwaiting := hi.waiting_of_dequeued hw hcb
    exact hs.setCall hids rfl rfl (by rw [hwaiting]; rfl) fun _ => ⟨rfl, rfl⟩
  | sectioned | advanced | otherGot | otherDenied | otherRelease | otherFill | otherHandles
  | flushBegan | flushRead | flushTimeout | flushFinish => exact hs.same rfl hids rfl

/-! ### Failure flags -/

/-- A write whose driver threw and the flags of its dataset. -/
structure FailingCall (ds : Nat → DatasetRecord) (x : WriteCall) : Prop where
  marked : x.cb = .markedDataset → (ds x.args.dataset).hasFailure = true
  surfaced : x.cb.settled = true → x.outcome = some false →
    (ds x.args.dataset).hasFailure = true ∧ (ds x.args.dataset).firstFailureCode = .backendFailure

structure Failing (s : WriteRun) : Prop where
  code : ∀ d, (s.datasets d).firstFailureCode = .ok ∨
    (s.datasets d).firstFailureCode = .backendFailure
  call : ∀ c, FailingCall s.datasets (s.calls c)

/-- The failure flags of a dataset are only ever raised. -/
def Raised (ds ds' : Nat → DatasetRecord) : Prop :=
  ∀ d, ((ds d).hasFailure = true → (ds' d).hasFailure = true) ∧
    ((ds d).firstFailureCode = .backendFailure → (ds' d).firstFailureCode = .backendFailure)

/-- A failure flag is only ever raised. -/
theorem Raised.update {ds : Nat → DatasetRecord} {e : Nat} {x : DatasetRecord}
    (hfail : (ds e).hasFailure = true → x.hasFailure = true)
    (hcode : (ds e).firstFailureCode = .backendFailure → x.firstFailureCode = .backendFailure) :
    Raised ds (Function.update ds e x) :=
  (Function.forall_update_iff ds fun d y =>
    ((ds d).hasFailure = true → y.hasFailure = true) ∧
      ((ds d).firstFailureCode = .backendFailure → y.firstFailureCode = .backendFailure)).mpr
    ⟨⟨hfail, hcode⟩, fun _ _ => ⟨id, id⟩⟩

/-- No step takes a failure back. -/
theorem Step.raised {op : WriteOp} (h : Step s op s') : Raised s.datasets s'.datasets := by
  cases h with
  | counted | subtracted => exact .update id id
  | marked => exact .update (fun _ => rfl) id
  -- the compare-exchange keeps a code that is already there
  | firstCode =>
    refine .update id fun h => ?_
    simp only [datasetOf, h]
    rfl
  | _ => exact fun _ => ⟨id, id⟩

/-- A failure that was booked stays booked. -/
theorem FailingCall.raise {ds ds' : Nat → DatasetRecord} {x : WriteCall} (h : FailingCall ds x)
    (hr : Raised ds ds') : FailingCall ds' x where
  marked := fun hcb => (hr _).1 (h.marked hcb)
  surfaced := fun hcb hout => ⟨(hr _).1 (h.surfaced hcb hout).1, (hr _).2 (h.surfaced hcb hout).2⟩

theorem Failing.initial (a : PoolArgs) (n : Nat) (bp : BackpressureConfig) (ids : Nat → UInt64) :
    Failing (start a n bp ids) :=
  ⟨fun _ => .inl rfl, fun _ => ⟨nofun, nofun⟩⟩

/-- The first failure code stays one of two values. -/
theorem Failing.code_step {op : WriteOp} (hs : Failing s) (h : Step s op s') (d : Nat) :
    (s'.datasets d).firstFailureCode = .ok ∨
      (s'.datasets d).firstFailureCode = .backendFailure := by
  have hset : ∀ (e : Nat) (x : DatasetRecord),
      (x.firstFailureCode = .ok ∨ x.firstFailureCode = .backendFailure) →
      (Function.update s.datasets e x d).firstFailureCode = .ok ∨
        (Function.update s.datasets e x d).firstFailureCode = .backendFailure := by
    intro e x hx
    by_cases hd : d = e
    · subst hd; rw [Function.update_self]; exact hx
    · rw [Function.update_of_ne hd]; exact hs.code d
  cases h with
  | @counted c | @marked _ c | @subtracted _ c => exact hset _ _ (hs.code (s.calls c).args.dataset)
  -- the first code is set once, from the failure of a write
  | firstCode =>
    refine hset _ _ (.inr ?_)
    simp only
    split
    · rfl
    · next hne => exact (hs.code _).resolve_left hne
  | _ => exact hs.code d

/-- A call whose failure is booked, if it has failed. -/
theorem Failing.setCall {c : Nat} {x : WriteCall} (hs : Failing s)
    (hcode : ∀ d, (s'.datasets d).firstFailureCode = .ok ∨
      (s'.datasets d).firstFailureCode = .backendFailure)
    (hraised : Raised s.datasets s'.datasets) (hcalls : s'.calls = Function.update s.calls c x)
    (hx : FailingCall s'.datasets x) : Failing s' := by
  refine ⟨hcode, ?_⟩
  rw [hcalls]
  exact (Function.forall_update_iff s.calls fun _ => FailingCall s'.datasets).mpr
    ⟨hx, fun d _ => (hs.call d).raise hraised⟩

/-- **Every step keeps the failure flags.** -/
theorem Failing.step {op : WriteOp} (hi : Inv s) (hs : Failing s) (h : Step s op s') :
    Failing s' := by
  have hcode := hs.code_step h
  have hraised := h.raised
  have hkeep : ∀ c, FailingCall s'.datasets (s.calls c) := fun c => (hs.call c).raise hraised
  cases h with
  | call args => exact hs.setCall hcode hraised rfl ⟨nofun, nofun⟩
  | @got c | @denied c | @copied c | @inserted c | @entered c | @submitted c | @counted c
  | @returned c => exact hs.setCall hcode hraised rfl { hkeep c with }
  | @began | @failed | @coded => exact hs.setCall hcode hraised rfl ⟨nofun, nofun⟩
  | @answered w c ok run pc =>
    refine hs.setCall hcode hraised rfl ⟨?_, ?_⟩ <;> cases ok <;> nofun
  -- `flagged` is reached from both branches; from this one the driver has returned
  | @completed w c ok run pc =>
    have hflags := (hi.calls c).flags
    rw [pc] at hflags
    refine hs.setCall hcode hraised rfl ⟨nofun, fun _ hout => ?_⟩
    simp only at hout
    rw [hflags.1] at hout
    cases hout
  | @marked w c ok run pc =>
    refine hs.setCall hcode hraised rfl ⟨fun _ => ?_, nofun⟩
    simp [setDataset]
  -- `has_failure` was stored one access earlier, the code is stored here
  | @firstCode w c ok run pc =>
    refine hs.setCall hcode hraised rfl ⟨nofun, fun _ _ => ⟨?_, ?_⟩⟩
    · simpa [setDataset, datasetOf] using (hs.call c).marked pc
    · simp only [setDataset, Function.update_self]
      split
      · rfl
      · next hne => exact (hs.code _).resolve_left hne
  | @gaveBack w c ok run pc | @subtracted w c ok run pc =>
    exact hs.setCall hcode hraised rfl ⟨nofun, fun _ => (hkeep c).surfaced (by rw [pc]; rfl)⟩
  | @locked w c t r hr hw hcb => exact hs.setCall hcode hraised rfl ⟨nofun, nofun⟩
  | sectioned | advanced | otherGot | otherDenied | otherRelease | otherFill | otherHandles
  | flushBegan | flushRead | flushTimeout | flushFinish => exact ⟨hcode, hkeep⟩

/-! ### All of them -/

/-- Everything that holds in every run of the write path. -/
structure Good (s : WriteRun) : Prop extends Inv s, Staged s where
  logged : Logged s
  failing : Failing s

theorem Good.initial (a : PoolArgs) (n : Nat) (bp : BackpressureConfig) (ids : Nat → UInt64) :
    Good (start a n bp ids) :=
  ⟨.initial a n bp ids, .initial a n bp ids, .initial a n bp ids, .initial a n bp ids⟩

/-- **Every step keeps the invariant.** -/
theorem Good.step {op : WriteOp} (hs : Good s) (h : Step s op s') : Good s' :=
  ⟨hs.toInv.step h, hs.toStaged.step hs.toInv h, hs.logged.step hs.toInv hs.toStaged h,
    hs.failing.step hs.toInv h⟩

theorem Good.of_reach {ok : WriteRun → WriteOp → Prop} (h : system.Reach ok s) : Good s := by
  refine Lts.System.Reach.invariant ?_ (fun _ _ _ hi _ hstep => hi.step (step_cases hstep)) h
  rintro _ ⟨a, n, bp, ids, -, rfl⟩
  exact Good.initial a n bp ids

end WriteRun

end Amio
