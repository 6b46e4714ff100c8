import Amio.Api.Registry

/-!
# After `finalize`

`finalize` releases the handles of the core's datasets and of the core itself. Views and Io handles
of the core are not tracked by it: they stay live, and what they stand for points to a core and a
staging pool that are gone. When there is no such handle, nothing dangles (`nothing_dangles`): no
live slot belongs to the deleted core, its old handles are refused, and those of the other cores are
not touched.

The last two say what becomes of tokens, so they need that the table has not run out of slots and
that no generation has wrapped around (`HandleRun.Within`).
-/

namespace Amio

/-- The handle that a call is made with. -/
def ApiOp.handle : ApiOp → Option Token
  | .openDataset token _ _ | .describe token _ _ | .read token _ _ _ _ | .wait token | .flush token
  | .releaseView token | .viewData token | .close token | .finalize token => some token
  -- null arguments are rejected before the handle is looked at
  | .write token args _ => if args.nullArg then none else some token
  | _ => none

namespace Process

variable {s s' : Process} {k : Nat} {op : ApiOp}

/-- The step begins the `finalize` of a core that has live Io or View handles. -/
def strands (s : Process) : ApiOp → Bool
  | .finalize token =>
    match s.handles.table.lookup token .core with
    | (.ok, some (.core k)) =>
      -- the teardown drops the core's views and Io records, but not their handles
      (List.range s.handles.table.size).any fun i =>
        (s.handles.table.slot i).live &&
          match (s.handles.table.slot i).payload with
          | some (.io j _) | some (.view j _) => decide (j = k)
          | _ => false
    | _ => false
  | _ => false

/-- No handle outlives its core. -/
structure Anchored (s : Process) : Prop where
  alive : ∀ {i kind x}, s.handles.table.Shows i kind x → (s.cores x.home).deleted = false
  clear : ∀ k, s.call.isFinal = true → s.call.home = some k →
    ∀ {i kind x}, s.handles.table.Shows i kind x → x.home = k → x = .core k ∨ ∃ d, x = .dataset k d

/-- Where no view and no Io handle is stranded, the core has handles of itself and of datasets only.
-/
theorem clear_of_strands {token : Token}
    (hfound : s.handles.table.lookup token .core = (.ok, some (.core k)))
    (hok : ¬ s.strands (.finalize token) = true) {i : Nat} {kind : HandleKind} {x : Payload}
    (hshows : s.handles.table.Shows i kind x) (hhome : x.home = k) :
    x = .core k ∨ ∃ d, x = .dataset k d := by
  obtain ⟨hlt, hlive, -, hpayload⟩ := hshows
  -- a slot that shows such a payload would make the step strand it
  have hnot : ∀ y : Payload, x = y → (match some y with
      | some (.io j _) | some (.view j _) => decide (j = k)
      | _ => false) = false := by
    rintro y rfl
    by_contra hy
    refine hok ?_
    simp only [strands, hfound]
    refine List.any_eq_true.mpr ⟨i, List.mem_range.mpr hlt, ?_⟩
    rw [hlive, hpayload]
    simpa using hy
  cases x with
  | core j => exact .inl (congrArg Payload.core hhome)
  | dataset j d =>
    obtain rfl : j = k := hhome
    exact .inr ⟨d, rfl⟩
  -- the two kinds that the teardown leaves behind
  | io j c =>
    obtain rfl : j = k := hhome
    have hfalse := hnot _ rfl
    simp at hfalse
  | view j v =>
    obtain rfl : j = k := hhome
    have hfalse := hnot _ rfl
    simp at hfalse

/-- The handles that are left keep their cores. -/
theorem Anchored.fewer (h : Anchored s)
    (hsub : ∀ {i kind x}, s'.handles.table.Shows i kind x → s.handles.table.Shows i kind x)
    (hdeleted : ∀ {i kind x}, s'.handles.table.Shows i kind x →
      (s'.cores x.home).deleted = (s.cores x.home).deleted)
    (hcall : s'.call.isFinal = true → s.call.isFinal = true ∧ s'.call.home = s.call.home) :
    Anchored s' where
  alive hi := (hdeleted hi).trans (h.alive (hsub hi))
  clear k hfinal hhome i kind x hi := by
    obtain ⟨hbefore, hsame⟩ := hcall hfinal
    exact h.clear k hbefore (hsame ▸ hhome) (hsub hi)

/-- A handle begins, for a core that is not deleted. -/
theorem Anchored.add (h : Anchored s) (hs : Registered s) {x : Payload} {kind : HandleKind}
    (hhandles : s'.handles = s.handles.insert kind x)
    (hdeleted : ∀ j, j < s.ncores → (s'.cores j).deleted = (s.cores j).deleted)
    (hself : (s'.cores x.home).deleted = false) (hcall : s'.call.isFinal = false) :
    Anchored s' where
  alive {i kind' y} hi := by
    rw [hhandles] at hi
    rcases (hs.slab.insert_shows kind x i kind' y).mp hi with hold | ⟨-, -, rfl, -⟩
    · exact (hdeleted _ (hs.shows hold).2.2.1).trans (h.alive hold)
    · exact hself
  clear k hfinal := by
    rw [hcall] at hfinal
    cases hfinal

/-- **Handles keep their cores**, after a step that strands none. -/
theorem Anchored.step (h : Anchored s) (hs : Registered s) (hok : ¬ s.strands op = true)
    (hstep : s.step op = some s') : Anchored s' := by
  cases step_moves hstep with
  | quiet same goes =>
    have hsub : ∀ {i kind x}, s'.handles.table.Shows i kind x → s.handles.table.Shows i kind x :=
      fun hi => same.handles ▸ hi
    have hdeleted : ∀ j, (s'.cores j).deleted = (s.cores j).deleted :=
      fun j => (face_eq_core (same.cores j)).2.2.2
    cases goes with
    | stays after => exact h.fewer hsub (fun _ => hdeleted _) fun hf => ⟨after ▸ hf, by rw [after]⟩
    | returns after =>
      refine h.fewer hsub (fun _ => hdeleted _) fun hf => ?_
      rw [after] at hf
      cases hf
    | waits j c after =>
      exact h.fewer hsub (fun _ => hdeleted _) fun hf => by rw [after] at hf; cases hf
    | onward j before usual after usual' =>
      exact h.fewer hsub (fun _ => hdeleted _) fun hf => by rw [usual'] at hf; cases hf
    | begins j d before live after usual' =>
      exact h.fewer hsub (fun _ => hdeleted _) fun hf => by rw [usual'] at hf; cases hf
    | stops j token before isFinalize found after =>
      subst isFinalize
      refine ⟨fun hi => (hdeleted _).trans (h.alive (hsub hi)), fun k _ hhome {i kind x} hi => ?_⟩
      rw [after] at hhome
      obtain rfl := Option.some.inj hhome
      exact clear_of_strands found hok (hsub hi)
    | joins j before after =>
      exact h.fewer hsub (fun _ => hdeleted _)
        fun _ => ⟨by rw [before]; rfl, by rw [before, after]; rfl⟩
  | core before handles ncores cores datasets views after =>
    refine h.add hs handles (fun j hj => ?_) ?_ (by rw [after]; rfl)
    · rw [cores, Function.update_of_ne (Nat.ne_of_lt hj)]
    · show (s'.cores s.ncores).deleted = false
      rw [cores, Function.update_self]
  | dataset k mode before live handles ncores cores datasets views after =>
    have hdeleted : ∀ j, (s'.cores j).deleted = (s.cores j).deleted := by
      intro j
      rw [cores]
      exact Lts.apply_update_eq CoreRecord.deleted (by rfl) j
    exact h.add hs handles (fun j _ => hdeleted j)
      ((hdeleted k).trans (hs.active_of_holds live).2) (by rw [after]; rfl)
  | io k c before pc handles ncores cores datasets views after minted =>
    refine h.add hs handles (fun j _ => by rw [cores]) ?_ (by rw [after, before]; rfl)
    show (s'.cores k).deleted = false
    rw [cores]
    exact (hs.home k (by rw [before]; rfl)).2
  | view k d q c b c' before pc handles ncores cores datasets views after =>
    have hdeleted : ∀ j, (s'.cores j).deleted = (s.cores j).deleted := by
      intro j
      rw [cores]
      exact Lts.apply_update_eq CoreRecord.deleted (by rfl) j
    exact h.add hs handles (fun j _ => hdeleted j)
      ((hdeleted k).trans (hs.home k (by rw [before]; rfl)).2) (by rw [after]; rfl)
  | unview k v token before found alive handles ncores cores datasets views after =>
    refine h.fewer (fun {i kind x} hi => ?_) (fun _ => by rw [cores])
      fun hf => by rw [after] at hf; cases hf
    rw [handles] at hi
    exact ((hs.slab.release_shows _ _ i kind x).mp hi).1
  | close k d result before handles ncores cores others self views after =>
    refine h.fewer (fun {i kind x} hi => ?_) (fun _ => by rw [cores])
      fun hf => by rw [after] at hf; cases hf
    rw [handles] at hi
    exact ((hs.slab.release_shows _ _ i kind x).mp hi).1
  | tear k d rest before mem handles ncores cores datasets views after =>
    refine h.fewer (fun {i kind x} hi => ?_) (fun _ => by rw [cores])
      fun _ => ⟨by rw [before]; rfl, by rw [before, after]; rfl⟩
    split at handles
    · exact handles ▸ hi
    · rw [handles] at hi
      exact ((hs.slab.release_shows _ _ i kind x).mp hi).1
  | destroy k before handles ncores cores datasets views after =>
    have hshows : ∀ {i kind x}, s'.handles.table.Shows i kind x →
        s.handles.table.Shows i kind x ∧
          ¬ (kind = .core ∧ s.handles.table.tokenAt i = (s.cores k).token) := by
      intro i kind x hi
      rw [handles] at hi
      exact (hs.slab.release_shows _ _ i kind x).mp hi
    refine h.fewer (fun hi => (hshows hi).1) (fun {i kind x} hi => ?_)
      fun hf => by rw [after] at hf; cases hf
    -- the handles of the core were its own and those of its datasets, and all are released
    have hne : x.home ≠ k := by
      intro hhome
      obtain ⟨hold, hkept⟩ := hshows hi
      obtain ⟨hkind, htoken, -⟩ := hs.shows hold
      rcases h.clear k (by rw [before]; rfl) (by rw [before]; rfl) hold hhome with rfl | ⟨d, rfl⟩
      · exact hkept ⟨hkind, htoken.symm⟩
      · subst hkind
        exact List.not_mem_nil (hs.torn k [] before i d hold)
    rw [cores, Function.update_of_ne hne]

/-- Live handles are anchored in every run that strands none. -/
theorem Anchored.of_reach (h : system.Reach (fun s op => ¬ s.strands op = true) s) :
    Anchored s := by
  refine h.invariant_of (J := Registered) (fun _ h => .of_reach h) (fun s hinit _ => ?_)
    fun s op s' hs _ hanchored hok hstep => hanchored.step hs hok hstep
  have hnone : ∀ {i kind x}, ¬ s.handles.table.Shows i kind x := by
    rintro i kind x ⟨hlt, -⟩
    rw [hinit.1] at hlt
    exact Nat.not_lt_zero i hlt
  exact ⟨fun hi => absurd hi hnone, fun _ _ _ _ _ _ hi => absurd hi hnone⟩

/-! ### Tokens -/

/-- The handle table moves by its own operations. -/
theorem Move.handles_step (h : Move s op s') :
    s'.handles = s.handles ∨ ∃ hop, s.handles.step hop = some s'.handles := by
  rcases h.handles with hsame | ⟨kind, x, hinsert⟩ | ⟨token, kind, hrelease⟩
  · exact .inl hsame
  · exact .inr ⟨.insert kind (some x), by rw [hinsert]; rfl⟩
  · exact .inr ⟨.release token kind, by rw [hrelease]; rfl⟩

/-- The table has a history of its own. -/
theorem handles_reachable {ok : Process → ApiOp → Prop} (h : system.Reach ok s) :
    (HandleRun.system Payload).Reachable s.handles := by
  refine h.invariant (I := fun s => (HandleRun.system Payload).Reachable s.handles)
    (fun s hinit => ?_) fun s op s' hs _ hstep => ?_
  · exact .init (show (HandleRun.system Payload).init s.handles from hinit.1)
  · rcases (step_moves hstep).handles_step with hsame | ⟨hop, hnext⟩
    · rw [hsame]
      exact hs
    · exact .step hs trivial hnext

/-- What was minted stays in the history. -/
theorem Move.log_subset (h : Move s op s') {e : HandleEvent Payload} (he : e ∈ s.handles.log) :
    e ∈ s'.handles.log := by
  rcases h.handles with hsame | ⟨kind, x, hinsert⟩ | ⟨token, kind, hrelease⟩
  · rw [hsame]
    exact he
  · rw [hinsert]
    exact List.mem_cons_of_mem _ he
  · rw [hrelease]
    simp only [HandleRun.release]
    split
    · exact List.mem_cons_of_mem _ he
    · exact he

/-- The tokens that `finalize` releases were minted for the records it finds them in. -/
structure Tracked (s : Process) : Prop where
  core : ∀ k, k < s.ncores →
    HandleEvent.inserted .core (some (.core k)) (s.cores k).token ∈ s.handles.log
  dataset : ∀ k d, k < s.ncores → d < (s.cores k).ndatasets →
    HandleEvent.inserted .dataset (some (.dataset k d)) (s.datasets k d).token ∈ s.handles.log
  rest : ∀ k rest, s.call = .tearing k rest → ∀ d ∈ rest, d < (s.cores k).ndatasets

/-- A step that changes no token and takes nothing off the list of the teardown. -/
theorem Tracked.same (h : Tracked s) (hmove : Move s op s') (hncores : s'.ncores = s.ncores)
    (hcores : ∀ j, (s'.cores j).token = (s.cores j).token ∧
      (s'.cores j).ndatasets = (s.cores j).ndatasets)
    (hdatasets : ∀ j e, (s'.datasets j e).token = (s.datasets j e).token)
    (hrest : ∀ k rest, s'.call = .tearing k rest → ∀ d ∈ rest, d < (s.cores k).ndatasets) :
    Tracked s' where
  core k hk := by
    rw [(hcores k).1]
    exact hmove.log_subset (h.core k (hncores ▸ hk))
  dataset k d hk hd := by
    rw [hdatasets]
    exact hmove.log_subset (h.dataset k d (hncores ▸ hk) ((hcores k).2 ▸ hd))
  rest k rest hcall d hd := by
    rw [(hcores k).2]
    exact hrest k rest hcall d hd

/-- Every step keeps track of the tokens. -/
theorem Tracked.step (h : Tracked s) (hstep : s.step op = some s') :
    Tracked s' := by
  have hmove := step_moves hstep
  have hsame := h.same hmove
  -- what has been handed out stays in the log
  have hlog : ∀ {x}, x ∈ s.handles.log → x ∈ s'.handles.log := fun hx => hmove.log_subset hx
  cases hmove with
  | quiet same goes =>
    refine hsame same.ncores (fun j => ?_) (fun j e => (face_eq_dataset (same.datasets j e)).2.1)
      fun j rest hcall d hd => ?_
    · obtain ⟨htoken, hn, -⟩ := face_eq_core (same.cores j)
      exact ⟨htoken, hn⟩
    · cases goes with
      | stays after => exact h.rest j rest (after ▸ hcall) d hd
      | returns after => cases after.symm.trans hcall
      | waits j c after => cases after.symm.trans hcall
      | onward j before usual after usual' => rw [hcall] at usual'; cases usual'
      | begins j d before live after usual' => rw [hcall] at usual'; cases usual'
      | stops j token before isFinalize found after => cases after.symm.trans hcall
      | joins j before after =>
        cases after.symm.trans hcall
        exact List.mem_range.mp hd
  | core before handles ncores cores datasets views after =>
    have hne : ∀ {j}, j < s'.ncores → j ≠ s.ncores → j < s.ncores := fun hj hne => by omega
    refine ⟨fun j hj => ?_, fun j e hj he => ?_, fun j rest hcall => ?_⟩
    · by_cases heq : j = s.ncores
      · subst heq
        rw [cores, Function.update_self, handles]
        exact List.mem_cons_self
      · rw [cores, Function.update_of_ne heq]
        exact hlog (h.core j (hne hj heq))
    · by_cases heq : j = s.ncores
      · subst heq
        rw [cores, Function.update_self] at he
        exact absurd he (Nat.not_lt_zero e)
      · rw [cores, Function.update_of_ne heq] at he
        rw [datasets]
        exact hlog (h.dataset j e (hne hj heq) he)
    · cases after.symm.trans hcall
  | dataset k mode before live handles ncores cores datasets views after =>
    refine ⟨fun j hj => ?_, fun j e hj he => ?_, fun j rest hcall => ?_⟩
    · have htoken : (s'.cores j).token = (s.cores j).token := by
        rw [cores]
        exact Lts.apply_update_eq CoreRecord.token (by rfl) j
      rw [htoken]
      exact hlog (h.core j (ncores ▸ hj))
    · rw [ncores] at hj
      by_cases hnew : j = k ∧ e = (s.cores k).ndatasets
      · -- the handle of the new dataset is the head of the log
        obtain ⟨rfl, rfl⟩ := hnew
        rw [datasets, Lts.update_update_self, handles]
        exact List.mem_cons_self
      · have hlt : e < (s.cores j).ndatasets := by
          rw [cores] at he
          by_cases hjk : j = k
          · subst hjk
            rw [Function.update_self] at he
            have hle : e < (s.cores j).ndatasets + 1 := he
            have hne : e ≠ (s.cores j).ndatasets := fun heq => hnew ⟨rfl, heq⟩
            omega
          · rwa [Function.update_of_ne hjk] at he
        rw [datasets, Lts.update_update_of_ne hnew]
        exact hlog (h.dataset j e hj hlt)
    · cases after.symm.trans hcall
  | io k c before pc handles ncores cores datasets views after minted =>
    refine hsame ncores (fun j => by rw [cores]; exact ⟨rfl, rfl⟩) (fun j e => by rw [datasets])
      fun j rest hcall => ?_
    cases (after.trans before).symm.trans hcall
  | view k d q c b c' before pc handles ncores cores datasets views after =>
    refine hsame ncores (fun j => ?_) (fun j e => ?_)
      fun j rest hcall => by cases after.symm.trans hcall
    · rw [cores]
      exact ⟨Lts.apply_update_eq CoreRecord.token (by rfl) j,
        Lts.apply_update_eq CoreRecord.ndatasets (by rfl) j⟩
    · rw [datasets]
      exact Lts.apply_update_update_eq OpenRecord.token (by rfl) j e
  | unview k v token before found alive handles ncores cores datasets views after =>
    refine hsame ncores (fun j => by rw [cores]; exact ⟨rfl, rfl⟩) (fun j e => ?_)
      fun j rest hcall => by cases after.symm.trans hcall
    rw [datasets]
    exact Lts.apply_update_update_eq OpenRecord.token (by rfl) j e
  | close k d result before handles ncores cores others self views after =>
    refine hsame ncores (fun j => by rw [cores]; exact ⟨rfl, rfl⟩) (fun j e => ?_)
      fun j rest hcall => by cases after.symm.trans hcall
    by_cases heq : (j, e) = (k, d)
    · obtain ⟨rfl, rfl⟩ := Prod.mk.inj heq
      exact (face_eq_dataset self).2.1
    · exact (face_eq_dataset (others j e heq)).2.1
  | tear k d rest before mem handles ncores cores datasets views after =>
    refine hsame ncores (fun j => by rw [cores]; exact ⟨rfl, rfl⟩)
      (fun j e => (face_eq_dataset (datasets j e)).2.1) fun j rest' hcall e he => ?_
    cases after.symm.trans hcall
    exact h.rest k rest before e (List.mem_of_mem_erase he)
  | destroy k before handles ncores cores datasets views after =>
    refine hsame ncores (fun j => ?_) (fun j e => by rw [datasets])
      fun j rest hcall => by cases after.symm.trans hcall
    rw [cores]
    exact ⟨Lts.apply_update_eq CoreRecord.token (by rfl) j,
      Lts.apply_update_eq CoreRecord.ndatasets (by rfl) j⟩

/-- The tokens are tracked in every run. -/
theorem Tracked.of_reach {ok : Process → ApiOp → Prop} (h : system.Reach ok s) : Tracked s := by
  refine h.invariant (fun s hinit => ?_) fun s op s' htracked _ hstep => htracked.step hstep
  obtain ⟨-, hncores, -, -, -, -, -, -, hcall, -⟩ := hinit
  exact ⟨fun k hk => by omega, fun k d hk => by omega, fun k rest h => by cases hcall.symm.trans h⟩

/-- The token was minted for a record of core `k`. -/
def DerivedFrom (s : Process) (k : Nat) (token : Token) : Prop :=
  ∃ kind x, HandleEvent.inserted kind (some x) token ∈ s.handles.log ∧ x.home = k

/-- A call with a handle that every lookup refuses. -/
theorem step_refused {token : Token} (hidle : s.call = .idle) (hhandle : op.handle = some token)
    (hlookup : ∀ kind, s.handles.table.lookup token kind = (.invalidHandle, none)) :
    s.step op = some (s.ret .invalidHandle) := by
  have hdispatch : ∀ {kind body}, s.dispatch token kind body = some (s.ret .invalidHandle) := by
    intro kind body
    rw [dispatch, hlookup]
  cases op with
  | write token' args region =>
    simp only [ApiOp.handle, Option.ite_none_left_eq_some, Option.some.injEq] at hhandle
    obtain ⟨hnull, rfl⟩ := hhandle
    simp only [step, hidle, begin, if_neg hnull, hdispatch]
  | openDataset | describe | read | wait | flush | releaseView | viewData | close | finalize =>
    obtain rfl := Option.some.inj hhandle
    simp only [step, hidle, begin, hdispatch]
  -- the other steps take no handle of the host
  | init | mint | cancel | surface | flushDriver | closeDriver | join | teardown | destroy
  | proceed | expire | run => cases hhandle

/-- What is live under a token was minted for it. -/
theorem inserted_of_lookup {ok : Process → ApiOp → Prop} (h : system.Reach ok s)
    (hwithin : s.handles.Within) {token : Token} {kind : HandleKind} {p : Option Payload}
    (hlookup : s.handles.table.lookup token kind = (.ok, p)) :
    HandleEvent.inserted kind p token ∈ s.handles.log := by
  have hrefines := HandleRun.table_refines s.handles (handles_reachable h) hwithin
  obtain ⟨later, earlier, hlog, -⟩ := (hrefines.lookup_ok token kind p).mp hlookup
  rw [hlog]
  simp

/-- The table after a token of core `k` is released: the other cores see no difference. -/
theorem lookup_of_release {ok : Process → ApiOp → Prop} (h : system.Reach ok s)
    (hwithin : s.handles.Within) {token token' : Token} {kind kind' : HandleKind} {x y : Payload}
    (hminted : HandleEvent.inserted kind' (some y) token' ∈ s.handles.log)
    (hhome : x.home ≠ y.home)
    (hlookup : s.handles.table.lookup token kind = (.ok, some x)) :
    (s.handles.release token' kind').table.lookup token kind = (.ok, some x) := by
  have hslab := (Registered.of_reach h).slab
  obtain ⟨hshows, hvalid⟩ := HandleTable.lookup_shows hlookup
  have htoken := (hslab.valid_iff hshows).mp ⟨hvalid, rfl⟩
  have hother : ¬ (kind = kind' ∧ s.handles.table.tokenAt (unpackSlot token).toNat = token') := by
    rintro ⟨-, heq⟩
    rw [← htoken] at heq
    subst heq
    have honce := HandleRun.issuedOnce_of_reachable (handles_reachable h) hwithin
    obtain ⟨-, hxy⟩ := honce token kind (some x) kind' (some y)
      (inserted_of_lookup h hwithin hlookup) hminted
    exact hhome (congrArg Payload.home (Option.some.inj hxy))
  have hshows' := (hslab.release_shows token' kind' _ kind x).mpr ⟨hshows, hother⟩
  have hlookup' := (hslab.release token' kind').lookup_tokenAt hshows'
  rw [HandleTable.release_tokenAt hshows', ← htoken] at hlookup'
  exact hlookup'

/-- **After `finalize`.** If no core is finalized while it has live Io or View handles, then no live
slot belongs to a deleted core; as long as the table stays within its capacity, every call with a
handle that was minted for the core or for a record of it is refused and changes nothing, and
no step of `finalize` touches the handles of other cores. -/
theorem nothing_dangles (h : system.Reach (fun s op => ¬ s.strands op = true) s) :
    (∀ k, (s.cores k).deleted = true →
      (∀ i kind x, s.handles.table.Shows i kind x → x.home ≠ k) ∧
      (s.handles.Within → s.call = .idle → ∀ op token, op.handle = some token →
        s.DerivedFrom k token → s.step op = some (s.ret .invalidHandle))) ∧
    ∀ k op s', s.call.isFinal = true → s.call.home = some k → s.step op = some s' →
      s'.handles.Within → ∀ token kind x, x.home ≠ k →
        s.handles.table.lookup token kind = (.ok, some x) →
        s'.handles.table.lookup token kind = (.ok, some x) := by
  have hregistered := Registered.of_reach h
  have hanchored := Anchored.of_reach h
  have htracked := Tracked.of_reach h
  constructor
  · intro k hdeleted
    have hnone : ∀ i kind x, s.handles.table.Shows i kind x → x.home ≠ k := by
      rintro i kind x hi rfl
      cases (hanchored.alive hi).symm.trans hdeleted
    refine ⟨hnone, fun hwithin hidle op token hhandle hderived => ?_⟩
    refine step_refused hidle hhandle fun kind => ?_
    obtain ⟨kind₀, x, hminted, hhome⟩ := hderived
    have hinv := HandleRun.inv_of_reachable (handles_reachable h) hwithin
    have hrefines := HandleRun.table_refines s.handles (handles_reachable h) hwithin
    have hne : token ≠ 0 := token_ne_zero (hinv.issued token ⟨kind₀, _, hminted⟩).2.1
    refine (hrefines.dead_token token kind hne ?_).1
    rintro ⟨p, hlive⟩
    -- the token was minted once, for `x`
    have hlookup := (hrefines.lookup_ok token kind p).mpr hlive
    have honce := HandleRun.issuedOnce_of_reachable (handles_reachable h) hwithin
    obtain ⟨rfl, rfl⟩ := honce token kind p kind₀ (some x)
      (inserted_of_lookup h hwithin hlookup) hminted
    exact hnone _ kind x (HandleTable.lookup_shows hlookup).1 hhome
  · intro k op s' hfinal hhome hstep hwithin' token kind x hx hlookup
    have hk := (hregistered.home k hhome).1
    have hmove := step_moves hstep
    have hwithin : s.handles.Within := by
      rcases hmove.handles_step with hsame | ⟨hop, hnext⟩
      · rwa [hsame] at hwithin'
      · exact HandleRun.within_of_step hnext hwithin'
    cases hmove with
    | quiet same goes =>
      rw [same.handles]
      exact hlookup
    | tear j d rest before mem handles =>
      rw [before] at hhome
      obtain rfl := Option.some.inj hhome
      split at handles
      · rw [handles]
        exact hlookup
      · rw [handles]
        exact lookup_of_release h hwithin
          (htracked.dataset j d hk (htracked.rest j rest before d mem)) hx hlookup
    | destroy j before handles =>
      rw [before] at hhome
      obtain rfl := Option.some.inj hhome
      rw [handles]
      exact lookup_of_release h hwithin (htracked.core j hk) hx hlookup
    | core before | dataset _ _ before | io _ _ before | view _ _ _ _ _ _ before
    | unview _ _ _ before | close _ _ _ before =>
      rw [before] at hfinal
      cases hfinal

/-- The first core is finalized. -/
def finalizeOps : List ApiOp :=
  [.finalize (pack 0 1), .run 0 (.write (.worker .shutdown)),
    .run 0 (.write (.worker (.turn 0 0))), .join, .teardown 0 true, .destroy]

theorem nothing_dangles_of_release :
    ∃ s, system.replay (fun s op => ¬ s.strands op = true) smallProcess
        (viewOps ++ [.releaseView (pack 3 1)] ++ finalizeOps) = some s ∧
      (s.cores 0).deleted = true ∧
      s.step (.viewData (pack 3 1)) = some (s.ret .invalidHandle) := by
  -- the view is released before the core is finalized
  have hrun : ((system.replay (fun s op => ¬ s.strands op = true) smallProcess
      (viewOps ++ [.releaseView (pack 3 1)] ++ finalizeOps)).map fun s =>
      ((s.cores 0).deleted, s.call, s.handles.table.size, s.handles.log)) =
      some (true, .idle, 4,
        [.released (pack 0 1), .released (pack 2 1), .released (pack 3 1),
          .inserted .view (some (.view 0 0)) (pack 3 1),
          .inserted .dataset (some (.dataset 0 0)) (pack 2 1),
          .inserted .core (some (.core 1)) (pack 1 1),
          .inserted .core (some (.core 0)) (pack 0 1)]) := by decide +kernel
  obtain ⟨s, hs, hobs⟩ := Option.map_eq_some_iff.mp hrun
  simp only [Prod.mk.injEq] at hobs
  obtain ⟨hdeleted, hidle, hsize, hlog⟩ := hobs
  -- seven entries are far from the end of a generation
  have hwithin : s.handles.Within := by
    refine ⟨by rw [hsize]; decide, fun i => ?_⟩
    rw [hlog]
    exact Nat.lt_of_le_of_lt List.countP_le_length (by decide)
  have hderived : s.DerivedFrom 0 (pack 3 1) :=
    ⟨.view, .view 0 0, by rw [hlog]; simp, rfl⟩
  have hdangles := nothing_dangles (.of_replay _ (.init smallProcess_init) hs)
  exact ⟨s, hs, hdeleted, (hdangles.1 0 hdeleted).2 hwithin hidle _ _ rfl hderived⟩

/-- The view is not released, and outlives its core. -/
theorem view_dangles :
    ∃ s, system.replay (fun _ _ => True) smallProcess (viewOps ++ finalizeOps) = some s ∧
      system.Reachable s ∧ s.last = .ok ∧ (s.cores 0).deleted = true ∧
      s.handles.table.lookup (pack 3 1) .view = (.ok, some (.view 0 0)) ∧
      s.step (.viewData (pack 3 1)) = none := by
  have hrun : ((system.replay (fun _ _ => True) smallProcess (viewOps ++ finalizeOps)).map fun s =>
      (s.last, s.call, (s.cores 0).deleted, s.handles.table.lookup (pack 3 1) .view)) =
      some (.ok, .idle, true, .ok, some (.view 0 0)) := by decide +kernel
  obtain ⟨s, hs, hobs⟩ := Option.map_eq_some_iff.mp hrun
  simp only [Prod.mk.injEq] at hobs
  obtain ⟨hlast, hidle, hdeleted, hlookup⟩ := hobs
  refine ⟨s, hs, .of_replay _ smallProcess_init hs, hlast, hdeleted, hlookup, ?_⟩
  simp [step, hidle, begin, dispatch, hlookup, hdeleted]

end Process

end Amio
