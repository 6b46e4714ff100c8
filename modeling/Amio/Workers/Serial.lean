import Amio.Lib.Traces
import Amio.Workers.Order

/-!
# Write tasks have the effect of a serial execution

The workers execute tasks side by side, and the pool only keeps the tasks of one key in order. If
the callbacks of different keys commute, that is enough: what the callbacks have done together at
any moment is the beginning of something that ends where a serial execution of the accepted tasks,
in the order of their acceptance, ends (`serializable`). A callback may take effect at any time
while it runs, so the effects need not come in the order in which the callbacks return.
-/

namespace Amio

open Traces (Agree Commutes part)

variable {α σ : Type}

namespace WorkerRun

variable {s : WorkerRun α} {act : σ → WriteTask α → σ} {done : List (WriteTask α)}

/-- The callbacks of a key that ran are an initial segment of the accepted tasks. -/
theorem Inv.ran_prefix (hs : Inv s) (k : DatasetVariableKey) :
    part WriteTask.dvKey s.ran k <+: part WriteTask.dvKey s.accepted k := by
  obtain ⟨n, hn⟩ := hs.ran_numbered k
  have hsub : part WriteTask.dvKey s.ran k ⊆ part WriteTask.dvKey s.accepted k := by
    intro t ht
    obtain ⟨hran, hk⟩ := Traces.mem_part.mp ht
    refine Traces.mem_part.mpr ⟨?_, hk⟩
    have haccepted : t ∈ (s.accepted : Multiset (WriteTask α)) := by
      rw [hs.writes]
      -- a callback that ran belongs to a completed task or to one that a worker still holds
      rcases hs.ran_eq k with ⟨w, u, hw, -, heq⟩ | ⟨-, heq⟩
      · rw [part, heq, List.mem_append, List.mem_filter, List.mem_singleton] at ht
        rcases ht with ⟨hcompleted, -⟩ | rfl
        · exact Multiset.mem_add.mpr (.inr hcompleted)
        · have hlt := hs.lt_of_ne_idle (w := w) (by rw [hw]; simp)
          refine Multiset.mem_add.mpr (.inl (Multiset.mem_add.mpr (.inr ?_)))
          exact Multiset.mem_sum.mpr ⟨w, Finset.mem_range.mpr hlt, by
            rw [hw]; exact Multiset.mem_singleton_self t⟩
      · rw [part, heq, List.mem_filter] at ht
        exact Multiset.mem_add.mpr (.inr ht.1)
    exact haccepted
  rw [part, part, eq_take_of_numbered (hs.accepted_seqs k) hn hsub]
  exact List.take_prefix _ _

/-- **Serializability.** Let the effects of the callbacks that ran have come in any order `done`
that keeps the order of each key. If callbacks of different keys commute, some order of the tasks
that have not run yet takes the state reached to the one that all accepted tasks lead to one after
the other; once the pool is drained, the state reached is that one. -/
theorem serializable (h : (system α).Reachable s) (hact : Commutes WriteTask.dvKey act)
    (hdone : Agree WriteTask.dvKey done s.ran) (x : σ) :
    (∃ rest : List (WriteTask α), (done ++ rest).Perm s.accepted ∧
        rest.foldl act (done.foldl act x) = s.accepted.foldl act x) ∧
      (s.pool.Drained → done.foldl act x = s.accepted.foldl act x) := by
  have hs := Inv.of_reachable h
  constructor
  -- what ran for one variable is a first part of what was accepted for it
  · have hprefix : ∀ k, part WriteTask.dvKey done k <+: part WriteTask.dvKey s.accepted k :=
      fun k => by rw [hdone]; exact hs.ran_prefix k
    obtain ⟨rest, hrest⟩ := Traces.exists_completion hprefix
    refine ⟨rest, hrest.perm, ?_⟩
    rw [← List.foldl_append]
    exact hrest.foldl_eq hact x
  -- when drained nothing is missing, so each part is the whole
  · intro hd
    refine Agree.foldl_eq hact (fun k => (hdone k).trans ?_) x
    have hperm := ((hs.drained hd).1.filter fun t => t.dvKey = k).length_eq
    exact (hs.ran_prefix k).eq_of_length hperm

/-- What a store holds after a write of its task's number to its task's key. -/
def overwriteKey (store : DatasetVariableKey → Nat) (t : WriteTask Nat) :
    DatasetVariableKey → Nat :=
  Function.update store t.dvKey t.callback

/-- Writes under different keys commute. -/
theorem commutes_overwriteKey : Commutes WriteTask.dvKey overwriteKey :=
  Traces.commutes_update fun (t : WriteTask Nat) (_ : Nat) => t.callback

/-- Two workers, and three tasks of two keys; the second key's task runs first. -/
def crossedOps : List (WorkerOp Nat) :=
  [.enter 0 ⟨⟨1, 1⟩, 7, 10⟩, .lock 0, .enter 1 ⟨⟨1, 2⟩, 8, 11⟩, .lock 1, .enter 2 ⟨⟨1, 1⟩, 9, 12⟩,
    .lock 2, .turn 0 0, .turn 1 0] ++ List.replicate 6 (.advance 1) ++
    List.replicate 6 (.advance 0) ++ [.turn 1 0] ++ List.replicate 6 (.advance 1)

theorem serializable_of_crossed :
    ∃ s, (system Nat).replay (fun _ _ => True) (start Nat 2 {}) crossedOps = some s ∧
      s.ran.map (·.callback) = [11, 10, 12] ∧ s.accepted.map (·.callback) = [10, 11, 12] ∧
      ∀ store, s.ran.foldl overwriteKey store = s.accepted.foldl overwriteKey store :=
  ⟨_, rfl, rfl, rfl, fun store =>
    (serializable (Lts.System.Reachable.of_replay crossedOps ⟨2, {}, rfl⟩ rfl)
      commutes_overwriteKey (fun _ => rfl) store).2 ⟨rfl, rfl, rfl⟩⟩

end WorkerRun

end Amio
