import CallerFirst.Proofs.CallGraph.Record
import CallerFirst.Proofs.Traversal
import Mathlib.Algebra.GroupWithZero.Nat

/-!
# Traversals go by calls

Two graphs with the same callees differ in the order of their nodes at most. `traverse_eq`: the same
roots are arranged in the same way on both.
-/

namespace CallerFirst

namespace CallGraph

variable {g g' : CallGraph Signature}

/-- Graphs over the same nodes, each with the same callees in the same order. -/
structure SameCalls (g g' : CallGraph Signature) : Prop where
  callees : ∀ v, g.callees v = g'.callees v
  ids : g.ids.Perm g'.ids
  nodup : g.ids.Nodup

theorem callees_removeEdge (v w u : Signature) :
    (g.removeEdge v w).callees u = if u = v then (g.callees u).erase w else g.callees u := by
  rw [callees, callees, removeEdge, node?_modify]
  · cases g.node? u with
    | none => simp
    | some n => by_cases h : u = v <;> simp [h]
  · exact fun _ => rfl

theorem ids_removeEdge (v w : Signature) : (g.removeEdge v w).ids = g.ids := by
  rw [ids, ids, removeEdge, modify, List.map_map]
  refine List.map_congr_left fun n _ => ?_
  simp only [Function.comp_apply]
  split <;> rfl

theorem edgeCount_eq (h : g.ids.Nodup) :
    g.edgeCount = (g.ids.map fun v => (g.callees v).length).sum := by
  rw [edgeCount, ids, List.map_map, List.sum]
  congr 1
  refine List.map_congr_left fun n hn => ?_
  rw [Function.comp_apply, callees_of_node? (node?_of_mem h hn)]

namespace SameCalls

theorem removeEdge (h : SameCalls g g') (v w : Signature) :
    SameCalls (g.removeEdge v w) (g'.removeEdge v w) := by
  refine ⟨fun u => ?_, ?_, ?_⟩
  · rw [callees_removeEdge, callees_removeEdge, h.callees]
  · rw [ids_removeEdge, ids_removeEdge]
    exact h.ids
  · rw [ids_removeEdge]
    exact h.nodup

theorem edgeCount (h : SameCalls g g') : g.edgeCount = g'.edgeCount := by
  rw [edgeCount_eq h.nodup, edgeCount_eq (h.ids.nodup_iff.mp h.nodup)]
  simp only [h.callees]
  exact (h.ids.map _).sum_eq

theorem calls_eq (h : SameCalls g g') : g.Calls = g'.Calls := by
  funext a b
  rw [Calls, Calls, h.callees]

end SameCalls

end CallGraph

namespace Arrangement

open CallGraph

variable {g g' : CallGraph Signature} {a a' : Arrangement Signature}

structure Alike (a a' : Arrangement Signature) : Prop where
  graph : SameCalls a.graph a'.graph
  ordered : a.ordered = a'.ordered

theorem leadsTo_eq (h : SameCalls g g') (v w : Signature) : leadsTo g v w = leadsTo g' v w := by
  rw [Bool.eq_iff_iff, leadsTo_iff, leadsTo_iff, Reaches, Reaches, h.calls_eq]

theorem placeBefore_alike (h : SameCalls g g') (v : Signature) (passed ahead : List Signature) :
    Alike (placeBefore g v passed ahead) (placeBefore g' v passed ahead) := by
  induction ahead generalizing g g' passed with
  | nil => exact ⟨h, rfl⟩
  | cons w ahead ih =>
    rw [placeBefore, placeBefore, leadsTo_eq h]
    split
    · exact ⟨h, rfl⟩
    · exact ih (h.removeEdge v w) (w :: passed)

theorem contains_eq (h : Alike a a') (v : Signature) : a.contains v = a'.contains v := by
  rw [contains, contains, h.ordered]

theorem Alike.insert (h : Alike a a') (p : Placement) (v : Signature) :
    Alike (a.insert p v) (a'.insert p v) := by
  unfold Arrangement.insert
  rw [contains_eq h v]
  split
  · exact h
  · cases p with
    | append => exact ⟨h.graph, congrArg (· ++ [v]) h.ordered⟩
    | beforeCallees =>
      rw [h.ordered]
      exact placeBefore_alike h.graph v [] a'.ordered

theorem Alike.visit (h : Alike a a') (p : Placement) (s : Strategy) (fuel : Nat)
    (pending : List Signature) : Alike (visit p s fuel a pending) (visit p s fuel a' pending) := by
  induction fuel generalizing a a' pending with
  | zero => exact h
  | succ fuel ih =>
    cases pending with
    | nil => exact h
    | cons v pending =>
      unfold Arrangement.visit
      rw [contains_eq h v, h.graph.callees v]
      split
      · exact ih h pending
      · exact ih (h.insert p v) _

theorem Alike.traverse (h : Alike a a') (p : Placement) (s : Strategy) (roots : List Signature) :
    Alike (traverse p s a roots) (traverse p s a' roots) := by
  unfold Arrangement.traverse
  induction roots generalizing a a' with
  | nil => exact h
  | cons root roots ih =>
    have hvisit : Alike (Arrangement.visit p s (a.graph.edgeCount + 2) a [root])
        (Arrangement.visit p s (a'.graph.edgeCount + 2) a' [root]) := by
      rw [h.graph.edgeCount]
      exact h.visit p s _ [root]
    exact ih hvisit

theorem traverse_eq (h : SameCalls g g') (p : Placement) (s : Strategy) (roots : List Signature) :
    (traverse p s { graph := g } roots).ordered = (traverse p s { graph := g' } roots).ordered := by
  have halike : Alike { graph := g } { graph := g' } := ⟨h, rfl⟩
  exact (halike.traverse p s roots).ordered

end Arrangement

end CallerFirst
