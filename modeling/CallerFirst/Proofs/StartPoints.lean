import CallerFirst.Proofs.CallGraph.Below
import CallerFirst.Proofs.Exploration
import CallerFirst.Proofs.MethodOrder

/-!
# Traversals go by their start points

In a graph without cycles every node is called from one that has no callers, directly or over others,
and going from a node arranges all that it calls. `traverse_starts`: what comes behind the nodes
without callers in a list of roots makes no difference.
-/

namespace CallerFirst

namespace CallGraph

variable {g : CallGraph Signature}

/-- No cycle of calls, not even of a method that calls itself. -/
def NoCycle (g : CallGraph Signature) : Prop :=
  ∀ a b, g.Calls a b → ¬g.Reaches b a

theorem NoCycle.acyclic (h : g.NoCycle) : g.Acyclic := by
  intro a b hab hba
  rcases Relation.ReflTransGen.cases_head hab with rfl | ⟨c, hac, hcb⟩
  · rfl
  · exact absurd (hcb.trans hba) (h a c hac)

instance (g : CallGraph Signature) : Decidable g.NoCycle :=
  decidable_of_iff (∀ a ∈ g.ids, ∀ b ∈ g.callees a, a ∉ g.reach b) (by
    simp only [mem_reach]
    constructor
    · intro h a b hab
      obtain ⟨n, hn, rfl, -⟩ := exists_node_of_calls hab
      exact h n.id (List.mem_map_of_mem hn) b hab
    · intro h a _ b hab
      exact h a b hab)

/-- Callers and callees are the same calls. -/
def Matched (g : CallGraph Signature) : Prop :=
  ∀ u v, u ∈ g.callers v ↔ g.Calls u v

def isStart (g : CallGraph Signature) (s : Signature) : Bool :=
  (g.callers s).isEmpty

theorem exists_start (hd : g.ids.Nodup) (hcycle : g.NoCycle) (hmatched : g.Matched)
    (hv : v ∈ g.ids) : ∃ s ∈ g.ids, g.isStart s = true ∧ g.Reaches s v := by
  -- callers have lower places in an arrangement with callers first
  let ordered := (Arrangement.traverse .beforeCallees .depthFirst { graph := g } g.ids).ordered
  have hstepdown : g.Stepdown ordered :=
    (Arrangement.traverse_stepdown hd hcycle.acyclic .depthFirst g.ids).stepdown
  have hmem {s : Signature} (hs : s ∈ g.ids) : s ∈ ordered := Arrangement.mem_traverse_root hs
  induction hplace : ordered.idxOf v using Nat.strongRecOn generalizing v with
  | ind place ih =>
    cases hstart : g.isStart v with
    | true => exact ⟨v, hv, hstart, .refl⟩
    | false =>
      obtain ⟨u, hu⟩ := List.exists_mem_of_ne_nil _ (List.isEmpty_eq_false_iff.mp hstart)
      have hcall := (hmatched u v).mp hu
      obtain ⟨n, hn, rfl, -⟩ := exists_node_of_calls hcall
      have hu : n.id ∈ g.ids := List.mem_map_of_mem hn
      have hne : n.id ≠ v := by
        intro heq
        exact hcycle n.id v hcall (heq ▸ .refl)
      have hlt := hstepdown.idxOf_lt (hmem hu) (hmem hv) hne (.single hcall)
      obtain ⟨s, hs, hstart, hreach⟩ := ih _ (hplace ▸ hlt) hu rfl
      exact ⟨s, hs, hstart, hreach.tail hcall⟩

end CallGraph

namespace Arrangement

variable {g : CallGraph Signature} {a : Arrangement Signature}

theorem traverse_of_mem (p : Placement) (s : Strategy) {roots : List Signature}
    (h : ∀ v ∈ roots, v ∈ a.ordered) : traverse p s a roots = a := by
  unfold traverse
  induction roots with
  | nil => rfl
  | cons root roots ih =>
    have hvisit : visit p s (a.graph.edgeCount + 2) a [root] = a := by
      rw [visit, if_pos (contains_iff.mpr (h root List.mem_cons_self))]
      rfl
    rw [List.foldl_cons, hvisit]
    exact ih fun v hv => h v (.tail _ hv)

theorem traverse_starts (p : Placement) (s : Strategy) {starts rest : List Signature}
    (h : ∀ v ∈ rest, ∃ u ∈ starts, g.Reaches u v) :
    traverse p s { graph := g } (starts ++ rest) = traverse p s { graph := g } starts := by
  have happend : traverse p s { graph := g } (starts ++ rest) =
      traverse p s (traverse p s { graph := g } starts) rest := List.foldl_append
  rw [happend]
  exact traverse_of_mem p s fun v hv => mem_traverse.mpr (h v hv)

end Arrangement

end CallerFirst
