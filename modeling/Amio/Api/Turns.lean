import Amio.Api.Process

/-!
# The turns of the host

What a step of the process can be, one rule for each: a step inside a core, a call that is made, a
call that goes on, or a call that returns. The step function and the calls are taken apart only here
(`step_turns`); what a step does to handles, to cores and to drivers is then read off the rules.
-/

namespace Amio

/-- The call in progress is `finalize`. -/
def ApiCall.isFinal : ApiCall → Bool
  | .stopping _ | .tearing _ _ => true
  | _ => false

/-- The call in progress is a `close_dataset` that the guard has let through. -/
def ApiCall.isClose : ApiCall → Bool
  | .cancelling _ _ _ | .draining _ _ | .surfacing _ _ | .closing _ _ _ | .flushed _ _ _ => true
  | _ => false

namespace Process

variable {s s' : Process} {k d : Nat} {op : ApiOp}

/-- `read` has given the caller a view. -/
def withView (s : Process) (k d q c : Nat) : Process :=
  { ((s.setCore k { s.cores k with nviews := (s.cores k).nviews + 1 }).setView k
      (s.cores k).nviews
      { dataset := d, queue := q, call := c
        token := s.handles.fresh .view (.view k (s.cores k).nviews) }).setDataset k d
      { s.datasets k d with outstandingViews := u64 ((s.datasets k d).outstandingViews + 1) }
    with handles := s.handles.insert .view (.view k (s.cores k).nviews) }

/-- `op` takes `s` to `s'`. -/
inductive Turn (s : Process) : ApiOp → Process → Prop
  | runs {k : Nat} {iop : IoOp} {s' : Process} (lt : k < s.ncores)
      (permitted : s.permitted k iop = true) (ran : s.ioStep k iop = some s') :
      Turn s (.run k iop) s'
  -- a call ends, or is refused
  | returns {op : ApiOp} (status : AmioErr) (close : s.call.isClose = false)
      (final : s.call.isFinal = false) : Turn s op (s.ret status)
  | observes {k c : Nat} (before : s.call = .waiting k c)
      (completed : ((s.io k).writes.calls c).io.completed = true) :
      Turn s .proceed ({ s with
        observed := Function.update s.observed k (Function.update (s.observed k) c true) }.ret
        ((s.io k).writes.calls c).io.verdict)
  | inits (idle : s.call = .idle) : Turn s (.init none) (s.init none)
  | opens {token : Token} {k : Nat} {mode : Mode} (idle : s.call = .idle)
      (found : s.handles.table.lookup token .core = (.ok, some (.core k))) :
      Turn s (.openDataset token mode none) (s.openDataset k mode none)
  | writes {token : Token} {args : WriteArgs} {region k d : Nat} {s' : Process}
      (idle : s.call = .idle)
      (found : s.handles.table.lookup token .dataset = (.ok, some (.dataset k d)))
      (ran : s.ioStep k (.call { args with dataset := d } region) = some s') :
      Turn s (.write token args region) { s' with call := .writing k (s.io k).writes.ncalls }
  -- `describe`, or a `read` that ends with it
  | resolves {op : ApiOp} {token : Token} {k d : Nat} {name : List UInt8} {known : Bool}
      {res : Option Nat} {s' : Process} (status : AmioErr) (idle : s.call = .idle)
      (found : s.handles.table.lookup token .dataset = (.ok, some (.dataset k d)))
      (mode : (s.datasets k d).mode = .read)
      (resolved : s.resolveVariable k d name known = some (res, s')) : Turn s op (s'.ret status)
  | reads {op : ApiOp} {token : Token} {k d q : Nat} {name : List UInt8} {known : Bool} {t : Int}
      {bbox : Option Bbox} {s₁ s' : Process} (idle : s.call = .idle)
      (found : s.handles.table.lookup token .dataset = (.ok, some (.dataset k d)))
      (mode : (s.datasets k d).mode = .read)
      (resolved : s.resolveVariable k d name known = some (some q, s₁))
      (ran : s₁.ioStep k (.read q (.begin .getBuffer t bbox)) = some s') :
      Turn s op { s' with call := .reading k d q ((s₁.io k).queues q).ncalls }
  | mints {k d q c b : Nat} {s' : Process} (before : s.call = .reading k d q c)
      (pc : (((s.io k).queues q).calls c).pc = .returned .ok (some b))
      (ran : (s.withView k d q c).ioStep k (.read q (.begin .scheduleNext
        (((s.io k).queues q).calls c).timestep none)) = some s') :
      Turn s .mint { s' with call := .advancing k q ((s.io k).queues q).ncalls }
  | waits {token : Token} {k c : Nat} (idle : s.call = .idle) :
      Turn s (.wait token) { s with call := .waiting k c }
  | flushes {token : Token} {k d : Nat} {s' : Process} (idle : s.call = .idle)
      (found : s.handles.table.lookup token .dataset = (.ok, some (.dataset k d)))
      (ran : s.ioStep k (.write (.flush d)) = some s') :
      Turn s (.flush token) { s' with call := .flushing k (s.io k).writes.nflushes }
  | releases {token : Token} {k v : Nat} {s' : Process} (idle : s.call = .idle)
      (found : s.handles.table.lookup token .view = (.ok, some (.view k v)))
      (alive : (s.cores k).deleted = false)
      (ran : s.ioStep k (.read (s.views k v).queue (.release (s.views k v).call)) = some s') :
      Turn s (.releaseView token)
        ({ (s'.setDataset k (s.views k v).dataset
            { s'.datasets k (s.views k v).dataset with
              outstandingViews :=
                u64 ((s.datasets k (s.views k v).dataset).outstandingViews + (2 ^ 64 - 1)) }
            ).setView k v { s.views k v with freed := true } with
          handles := s.handles.release (s.views k v).token .view }.ret .ok)
  -- `close_dataset`
  | closes {token : Token} {k d : Nat} (idle : s.call = .idle)
      (found : s.handles.table.lookup token .dataset = (.ok, some (.dataset k d))) :
      Turn s (.close token)
        { s with call := .cancelling k d ((s.datasets k d).variableStates.map Prod.snd) }
  | cancels {q k d : Nat} {rest : List Nat} {s' : Process} (before : s.call = .cancelling k d rest)
      (mem : q ∈ rest) (ran : s.ioStep k (.read q .cancel) = some s') :
      Turn s (.cancel q) { s' with call := .cancelling k d (rest.erase q) }
  | drains {k d : Nat} (before : s.call = .cancelling k d []) :
      Turn s .proceed { s with call := .draining k d }
  | drained {op : ApiOp} {k d : Nat} (before : s.call = .draining k d) :
      Turn s op { s with call := .surfacing k d }
  | surfaces {k d : Nat} (before : s.call = .surfacing k d) :
      Turn s .surface { s with call := .closing k d ((s.io k).writes.datasets d).verdict }
  | flushesDriver {ok : Bool} {k d : Nat} {result : AmioErr}
      (before : s.call = .closing k d result) :
      Turn s (.flushDriver ok)
        { s.receive k d [.flush] with call := .flushed k d (result.caught ok) }
  | closesDriver {ok : Bool} {k d : Nat} {result : AmioErr}
      (before : s.call = .flushed k d result) :
      Turn s (.closeDriver ok) (s.closeDriver k d (result.caught ok))
  -- `finalize`
  | finalizes {token : Token} {k : Nat} (idle : s.call = .idle)
      (found : s.handles.table.lookup token .core = (.ok, some (.core k))) :
      Turn s (.finalize token) { s with call := .stopping k }
  | joins {k : Nat} (before : s.call = .stopping k) :
      Turn s .join { s.setCore k { s.cores k with joined := true } with
        call := .tearing k (List.range (s.cores k).ndatasets) }
  | tears {k d : Nat} {rest : List Nat} {ok : Bool} (before : s.call = .tearing k rest)
      (mem : d ∈ rest) : Turn s (.teardown d ok) (s.teardown k d rest ok)
  | destroys {k : Nat} (before : s.call = .tearing k []) : Turn s .destroy (s.destroy k)

/-! ### The step function -/

/-- A lookup succeeds, or the call returns. -/
theorem dispatch_cases {token : Token} {kind : HandleKind} {body : Payload → Option Process}
    (h : s.dispatch token kind body = some s') :
    (∃ x, s.handles.table.lookup token kind = (.ok, some x) ∧ body x = some s') ∨
      ∃ status, s' = s.ret status := by
  unfold dispatch at h
  split at h
  · next x hx => exact .inl ⟨x, hx, h⟩
  · cases h
  · next status _ _ => exact .inr ⟨_, (Option.some.inj h).symm⟩

/-- A call that is made and returns at once. -/
theorem Turn.refused (idle : s.call = .idle) (op : ApiOp) (status : AmioErr) :
    Turn s op (s.ret status) :=
  .returns status (by rw [idle]; rfl) (by rw [idle]; rfl)

/-- A `describe` that passes the checks is of a dataset opened for reading. -/
theorem mode_of_describe {name : List UInt8} {mode : Mode}
    (h : (AccessKind.describe name false).check mode = .ok) : mode = .read := by
  simp only [AccessKind.check] at h
  split at h
  · cases h
  · split at h
    · cases h
    · next hmode => exact not_not.mp hmode

theorem mode_of_read {name : List UInt8} {t : Int} {mode : Mode}
    (h : (AccessKind.read name t).check mode = .ok) : mode = .read := by
  simp only [AccessKind.check] at h
  split at h
  · cases h
  · split at h
    · cases h
    · next hmode => exact not_not.mp hmode

theorem describe_turns {token : Token} {name : List UInt8} {known : Bool} (idle : s.call = .idle)
    (found : s.handles.table.lookup token .dataset = (.ok, some (.dataset k d)))
    (h : s.describe k d name known = some s') : Turn s op s' := by
  simp only [describe] at h
  split at h
  -- refused before the variable is looked at
  · obtain rfl := Option.some.inj h
    exact .refused idle op _
  -- the variable has a queue now, or the driver does not know it
  · next hcheck =>
    have hmode := mode_of_describe (not_not.mp hcheck)
    split at h
    · next q s₁ hres =>
      obtain rfl := Option.some.inj h
      exact .resolves .ok idle found hmode hres
    · next s₁ hres =>
      obtain rfl := Option.some.inj h
      exact .resolves .backendFailure idle found hmode hres
    · cases h

/-- The turns of `read`, up to `get_buffer`. -/
theorem read_turns {token : Token} {name : List UInt8} {known : Bool} {t : Int}
    {bbox : Option Bbox} (idle : s.call = .idle)
    (found : s.handles.table.lookup token .dataset = (.ok, some (.dataset k d)))
    (h : s.read k d name t bbox known = some s') : Turn s op s' := by
  simp only [read] at h
  split at h
  -- refused before the variable is looked at
  · obtain rfl := Option.some.inj h
    exact .refused idle op _
  · next hcheck =>
    have hmode := mode_of_read (not_not.mp hcheck)
    split at h
    · next q s₁ hres =>
      -- the timestep and the box are checked against the description
      simp only [fetchBuffer] at h
      split at h
      · obtain rfl := Option.some.inj h
        exact .resolves _ idle found hmode hres
      · split at h
        · obtain rfl := Option.some.inj h
          exact .resolves _ idle found hmode hres
        · obtain ⟨s₂, hs₂, rfl⟩ := Option.map_eq_some_iff.mp h
          exact .reads idle found hmode hres hs₂
    · next s₁ hres =>
      obtain rfl := Option.some.inj h
      exact .resolves .backendFailure idle found hmode hres
    · cases h

/-- The turns that begin a call. -/
theorem begin_turns (idle : s.call = .idle) (h : s.begin op = some s') : Turn s op s' := by
  cases op with
  | init refused =>
    obtain rfl := Option.some.inj h
    -- an early return, or the core and its handle
    cases refused with
    | some status => exact .refused idle _ status
    | none => exact .inits idle
  -- every call with a handle looks it up first; the record of its kind, or an error
  | openDataset core mode refused =>
    obtain ⟨x, found, hbody⟩ | ⟨status, rfl⟩ := dispatch_cases h
    · cases x with
      | core k =>
        obtain rfl := Option.some.inj hbody
        cases refused with
        | some status => exact .refused idle _ status
        | none => exact .opens idle found
      | dataset | io | view => cases hbody
    · exact .refused idle _ status
  -- the checks of the arguments come before the lookup
  | write token args region =>
    simp only [begin] at h
    split at h
    · obtain rfl := Option.some.inj h
      exact .refused idle _ _
    · obtain ⟨x, found, hbody⟩ | ⟨status, rfl⟩ := dispatch_cases h
      · cases x with
        | dataset k d =>
          obtain ⟨s₁, hs₁, rfl⟩ := Option.map_eq_some_iff.mp hbody
          exact .writes idle found hs₁
        | core | io | view => cases hbody
      · exact .refused idle _ status
  -- these two resolve the variable, and return if that fails
  | describe token name known =>
    obtain ⟨x, found, hbody⟩ | ⟨status, rfl⟩ := dispatch_cases h
    · cases x with
      | dataset k d => exact describe_turns idle found hbody
      | core | io | view => cases hbody
    · exact .refused idle _ status
  | read token name t bbox known =>
    obtain ⟨x, found, hbody⟩ | ⟨status, rfl⟩ := dispatch_cases h
    · cases x with
      | dataset k d => exact read_turns idle found hbody
      | core | io | view => cases hbody
    · exact .refused idle _ status
  -- an Io handle only: the record of the write is polled, no queue is touched
  | wait token =>
    obtain ⟨x, -, hbody⟩ | ⟨status, rfl⟩ := dispatch_cases h
    · cases x with
      | io k c =>
        obtain rfl := Option.some.inj hbody
        exact .waits idle
      | core | dataset | view => cases hbody
    · exact .refused idle _ status
  | flush token =>
    obtain ⟨x, found, hbody⟩ | ⟨status, rfl⟩ := dispatch_cases h
    · cases x with
      | dataset k d =>
        obtain ⟨s₁, hs₁, rfl⟩ := Option.map_eq_some_iff.mp hbody
        exact .flushes idle found hs₁
      | core | io | view => cases hbody
    · exact .refused idle _ status
  -- a view of a core that is gone is not an input
  | releaseView token =>
    obtain ⟨x, found, hbody⟩ | ⟨status, rfl⟩ := dispatch_cases h
    · cases x with
      | view k v =>
        simp only [releaseView, Option.ite_none_left_eq_some] at hbody
        obtain ⟨hdeleted, hbody⟩ := hbody
        obtain ⟨s₁, hs₁, rfl⟩ := Option.map_eq_some_iff.mp hbody
        exact .releases idle found (by simpa using hdeleted) hs₁
      | core | dataset | io => cases hbody
    · exact .refused idle _ status
  -- nothing but the answer
  | viewData token =>
    obtain ⟨x, -, hbody⟩ | ⟨status, rfl⟩ := dispatch_cases h
    · cases x with
      | view k v =>
        simp only [Option.ite_none_left_eq_some] at hbody
        obtain rfl := Option.some.inj hbody.2
        exact .refused idle _ _
      | core | dataset | io => cases hbody
    · exact .refused idle _ status
  | close token =>
    obtain ⟨x, found, hbody⟩ | ⟨status, rfl⟩ := dispatch_cases h
    · cases x with
      | dataset k d =>
        obtain rfl := Option.some.inj hbody
        -- outstanding views refuse it
        unfold Process.close
        split
        · exact .refused idle _ _
        · exact .closes idle found
      | core | io | view => cases hbody
    · exact .refused idle _ status
  | finalize token =>
    obtain ⟨x, found, hbody⟩ | ⟨status, rfl⟩ := dispatch_cases h
    · cases x with
      | core k =>
        obtain rfl := Option.some.inj hbody
        exact .finalizes idle found
      | dataset | io | view => cases hbody
    · exact .refused idle _ status
  -- the other steps are no calls of the host
  | mint | cancel | surface | flushDriver | closeDriver | join | teardown | destroy | proceed
  | expire | run => cases h

/-- The turns of a call that waits. -/
theorem proceed_turns (h : s.proceed = some s') : Turn s .proceed s' := by
  unfold proceed at h
  -- the calls that wait, each for its own condition
  split at h
  · next hcall =>
    split at h
    · obtain rfl := Option.some.inj h
      exact .returns _ (by rw [hcall]; rfl) (by rw [hcall]; rfl)
    · cases h
  · next hcall =>
    split at h
    · obtain rfl := Option.some.inj h
      exact .returns _ (by rw [hcall]; rfl) (by rw [hcall]; rfl)
    · cases h
  · next hcall =>
    split at h
    · obtain rfl := Option.some.inj h
      exact .returns _ (by rw [hcall]; rfl) (by rw [hcall]; rfl)
    · cases h
  -- `amio_wait` sees the flag of its write
  · next k c hcall =>
    simp only at h
    split at h
    · next hcompleted =>
      obtain rfl := Option.some.inj h
      exact .observes hcall hcompleted
    · cases h
  · next hcall =>
    obtain rfl := Option.some.inj h
    exact .drains hcall
  · next hcall =>
    split at h
    · obtain rfl := Option.some.inj h
      exact .drained hcall
    · cases h
  · cases h

/-- The turns of a `read` after `get_buffer`. -/
theorem mint_turns {q c : Nat} (hcall : s.call = .reading k d q c)
    (h : s.mint k d q c = some s') : Turn s .mint s' := by
  have hreturn : ∀ status, Turn s .mint (s.ret status) :=
    fun status => .returns status (by rw [hcall]; rfl) (by rw [hcall]; rfl)
  simp only [mint] at h
  split at h
  -- the read returned a buffer: it gets its view
  · next b hpc =>
    obtain ⟨s₁, hs₁, rfl⟩ := Option.map_eq_some_iff.mp h
    exact .mints hcall hpc hs₁
  -- it returned none, or an error
  · obtain rfl := Option.some.inj h
    exact hreturn _
  · obtain rfl := Option.some.inj h
    exact hreturn _
  · cases h

/-- **What a step can be.** -/
theorem step_turns (h : s.step op = some s') : Turn s op s' := by
  unfold step at h
  split at h
  -- a step inside a core, which the process must permit
  · simp only [Option.ite_none_right_eq_some] at h
    obtain ⟨⟨hlt, hpermitted⟩, h⟩ := h
    exact .runs hlt hpermitted h
  -- the host is inside a call
  · exact proceed_turns h
  · next hcall => exact mint_turns hcall h
  · next hcall =>
    obtain rfl := Option.some.inj h
    exact .returns _ (by rw [hcall]; rfl) (by rw [hcall]; rfl)
  · next hcall =>
    obtain rfl := Option.some.inj h
    exact .drained hcall
  · next hcall =>
    simp only [Option.ite_none_right_eq_some] at h
    obtain ⟨s₁, hs₁, rfl⟩ := Option.map_eq_some_iff.mp h.2
    exact .cancels hcall h.1 hs₁
  · next hcall =>
    obtain rfl := Option.some.inj h
    exact .surfaces hcall
  · next hcall =>
    obtain rfl := Option.some.inj h
    exact .flushesDriver hcall
  · next hcall =>
    obtain rfl := Option.some.inj h
    exact .closesDriver hcall
  · next hcall =>
    simp only [Option.ite_none_right_eq_some] at h
    obtain rfl := Option.some.inj h.2
    exact .joins hcall
  · next hcall =>
    simp only [Option.ite_none_right_eq_some] at h
    obtain rfl := Option.some.inj h.2
    exact .tears hcall h.1
  · next hcall =>
    obtain rfl := Option.some.inj h
    exact .destroys hcall
  -- the host begins one
  · next hcall => exact begin_turns hcall h
  · cases h

end Process

end Amio
