import CallerFirst.Proofs.CallGraph.Reach
import CallerFirst.Traversal
import Mathlib.Data.List.Nodup

/-!
# Callers first

On a graph without cycles, placing a node in front of what it leads to drops no call, and puts every
caller in front of what it calls, directly or over others. `traverse_stepdown` says so of a whole
traversal, whatever its strategy, its roots and their order.
-/

namespace CallerFirst

namespace CallGraph

variable {g : CallGraph Signature}

/-- No cycle of calls but of a method that calls itself. -/
def Acyclic (g : CallGraph Signature) : Prop :=
  ∀ a b, g.Reaches a b → g.Reaches b a → a = b

theorem eq_of_reaches (ha : a ∉ g.ids) (h : g.Reaches a b) : a = b := by
  rcases Relation.ReflTransGen.cases_head h with rfl | ⟨c, hac, -⟩
  · rfl
  · obtain ⟨n, hn, rfl, -⟩ := exists_node_of_calls hac
    exact absurd (List.mem_map_of_mem hn) ha

theorem acyclic_iff :
    g.Acyclic ↔ ∀ a ∈ g.ids, ∀ b ∈ g.ids, b ∈ g.reach a → a ∈ g.reach b → a = b := by
  simp only [mem_reach]
  constructor
  · exact fun h a _ b _ => h a b
  · intro h a b hab hba
    by_cases ha : a ∈ g.ids
    · by_cases hb : b ∈ g.ids
      · exact h a ha b hb hab hba
      · exact (eq_of_reaches hb hba).symm
    · exact eq_of_reaches ha hab

instance (g : CallGraph Signature) : Decidable g.Acyclic :=
  decidable_of_iff _ acyclic_iff.symm

/-- Nothing stands behind what it calls, directly or over others. -/
def Stepdown (g : CallGraph Signature) (ordered : List Signature) : Prop :=
  ordered.Pairwise fun a b => ¬g.Reaches b a

theorem Stepdown.nodup (h : g.Stepdown ordered) : ordered.Nodup := by
  refine List.Pairwise.imp ?_ h
  rintro a b hab rfl
  exact hab .refl

theorem node?_of_mem {n : CallNode Signature} (hd : g.ids.Nodup) (hn : n ∈ g.nodes) :
    g.node? n.id = some n := by
  cases hf : g.node? n.id with
  | none =>
    have := List.find?_eq_none.mp hf n hn
    simp at this
  | some m =>
    have hm : m ∈ g.nodes := List.mem_of_find?_eq_some hf
    rw [List.inj_on_of_nodup_map hd hm hn (node?_id hf)]

theorem removeEdge_of_not_calls (hd : g.ids.Nodup) (h : ¬g.Calls v w) : g.removeEdge v w = g := by
  have hnode : ∀ n ∈ g.nodes,
      (if n.id = v then { n with callees := n.callees.erase w } else n) = id n := by
    intro n hn
    split
    · rename_i hv
      have hw : w ∉ n.callees := by
        rwa [Calls, ← hv, callees_of_node? (node?_of_mem hd hn)] at h
      rw [List.erase_of_not_mem hw, id]
    · rfl
  unfold removeEdge modify
  rw [List.map_congr_left hnode, List.map_id]

end CallGraph

namespace Arrangement

variable {g : CallGraph Signature} {a : Arrangement Signature}

theorem contains_iff : a.contains v = true ↔ v ∈ a.ordered := by
  simp [contains]

theorem leadsTo_iff : leadsTo g v w = true ↔ g.Reaches v w ∧ ¬g.Reaches w v := by
  simp [leadsTo, CallGraph.mem_reach]

-- ---------------------------------------------------------------------------
-- One node
-- ---------------------------------------------------------------------------

/-- A node is placed behind those it does not reach, in front of one that it does. -/
theorem placeBefore_eq (hd : g.ids.Nodup) (hac : g.Acyclic) (passed : List Signature)
    {ahead : List Signature} (hv : v ∉ ahead) :
    ∃ front back, ahead = front ++ back ∧
      placeBefore g v passed ahead =
        { graph := g, ordered := passed.reverse ++ (front ++ v :: back) } ∧
      (∀ w ∈ front, ¬g.Reaches v w) ∧ ∀ w ∈ back.head?, g.Reaches v w := by
  induction ahead generalizing passed with
  | nil => exact ⟨[], [], rfl, rfl, by simp, by simp⟩
  | cons w ahead ih =>
    obtain ⟨hvw, hv⟩ := not_or.mp (mt List.mem_cons.mpr hv)
    unfold placeBefore
    split
    · rename_i hlead
      refine ⟨[], w :: ahead, rfl, rfl, by simp, ?_⟩
      rintro _ ⟨⟩
      exact (leadsTo_iff.mp hlead).1
    · rename_i hlead
      have hreach : ¬g.Reaches v w := by
        intro hr
        refine hlead (leadsTo_iff.mpr ⟨hr, fun hback => hvw (hac v w hr hback)⟩)
      have hcall : ¬g.Calls v w := fun h => hreach (.single h)
      rw [CallGraph.removeEdge_of_not_calls hd hcall]
      obtain ⟨front, back, rfl, heq, hfront, hback⟩ := ih (w :: passed) hv
      refine ⟨w :: front, back, rfl, by simp [heq], ?_, hback⟩
      exact List.forall_mem_cons.mpr ⟨hreach, hfront⟩

structure Ordered (g : CallGraph Signature) (a : Arrangement Signature) : Prop where
  graph_eq : a.graph = g
  stepdown : g.Stepdown a.ordered

theorem stepdown_middle (h : g.Stepdown (front ++ back)) (hfront : ∀ w ∈ front, ¬g.Reaches v w)
    (hback : ∀ w ∈ back.head?, g.Reaches v w ∧ ¬g.Reaches w v) :
    g.Stepdown (front ++ v :: back) := by
  obtain ⟨hf, hb, hfb⟩ := List.pairwise_append.mp h
  have hv : ∀ w ∈ back, ¬g.Reaches w v := by
    intro w hw
    cases back with
    | nil => cases hw
    | cons u back =>
      obtain ⟨hvu, huv⟩ := hback u rfl
      rcases List.mem_cons.mp hw with rfl | hw
      · exact huv
      -- what reaches `v` also reaches `u`, and nothing behind `u` does
      · exact fun hwv => (List.pairwise_cons.mp hb).1 w hw (hwv.trans hvu)
  refine List.pairwise_append.mpr ⟨hf, List.pairwise_cons.mpr ⟨hv, hb⟩, fun x hx y hy => ?_⟩
  rcases List.mem_cons.mp hy with rfl | hy
  · exact hfront x hx
  · exact hfb x hx y hy

theorem Ordered.insert (hd : g.ids.Nodup) (hac : g.Acyclic) (h : Ordered g a) :
    Ordered g (a.insert .beforeCallees v) := by
  unfold Arrangement.insert
  split
  · exact h
  · rename_i hv
    have hv : v ∉ a.ordered := fun hm => hv (contains_iff.mpr hm)
    rw [h.graph_eq]
    obtain ⟨front, back, heq, hplace, hfront, hback⟩ := placeBefore_eq hd hac [] hv
    simp only [hplace]
    refine ⟨rfl, stepdown_middle (heq ▸ h.stepdown) hfront fun w hw => ⟨hback w hw, fun hwv => ?_⟩⟩
    have hvw : v = w := hac v w (hback w hw) hwv
    exact hv (heq ▸ hvw ▸ List.mem_append_right _ (List.mem_of_mem_head? hw))

theorem placeBefore_perm (g : CallGraph Signature) (v : Signature) (passed ahead : List Signature) :
    (placeBefore g v passed ahead).ordered.Perm (v :: (passed.reverse ++ ahead)) := by
  induction ahead generalizing g passed with
  | nil => simp [placeBefore]
  | cons w ahead ih =>
    unfold placeBefore
    split
    · exact List.perm_middle
    · simpa using ih (g.removeEdge v w) (w :: passed)

theorem mem_placeBefore {ahead : List Signature} :
    u ∈ (placeBefore g v passed ahead).ordered ↔ u = v ∨ u ∈ passed ∨ u ∈ ahead := by
  simp [(placeBefore_perm g v passed ahead).mem_iff]

theorem mem_insert : u ∈ (a.insert p v).ordered ↔ u = v ∨ u ∈ a.ordered := by
  unfold Arrangement.insert
  split
  · rename_i hv
    rw [contains_iff] at hv
    exact ⟨.inr, fun h => h.elim (fun h => h ▸ hv) id⟩
  · cases p with
    | append => simp [or_comm]
    | beforeCallees => simp [mem_placeBefore]

theorem nodup_insert {a : Arrangement Signature} (h : a.ordered.Nodup) (p : Placement)
    (v : Signature) : (a.insert p v).ordered.Nodup := by
  unfold Arrangement.insert
  split
  · exact h
  · rename_i hv
    have hv : v ∉ a.ordered := fun hm => hv (contains_iff.mpr hm)
    cases p with
    | append => exact (List.perm_append_singleton v a.ordered).nodup_iff.mpr (h.cons hv)
    | beforeCallees => exact (placeBefore_perm a.graph v [] a.ordered).nodup_iff.mpr (h.cons hv)

-- ---------------------------------------------------------------------------
-- A traversal
-- ---------------------------------------------------------------------------

theorem visit_keeps {P : Arrangement Signature → Prop} {p : Placement}
    (hinsert : ∀ a v, P a → P (a.insert p v)) (s : Strategy) (fuel : Nat) (pending : List Signature)
    (h : P a) : P (visit p s fuel a pending) := by
  induction fuel generalizing a pending with
  | zero => exact h
  | succ fuel ih =>
    cases pending with
    | nil => exact h
    | cons v pending =>
      unfold visit
      split
      · exact ih pending h
      · exact ih _ (hinsert a v h)

theorem traverse_keeps {P : Arrangement Signature → Prop} {p : Placement}
    (hinsert : ∀ a v, P a → P (a.insert p v)) (s : Strategy) (roots : List Signature) (h : P a) :
    P (traverse p s a roots) := by
  unfold traverse
  induction roots generalizing a with
  | nil => exact h
  | cons root roots ih => exact ih (visit_keeps hinsert s _ _ h)

theorem traverse_stepdown (hd : g.ids.Nodup) (hac : g.Acyclic) (s : Strategy)
    (roots : List Signature) :
    Ordered g (traverse .beforeCallees s { graph := g } roots) :=
  traverse_keeps (fun _ _ h => h.insert hd hac) s roots ⟨rfl, .nil⟩

theorem nodup_traverse (p : Placement) (s : Strategy) (g : CallGraph Signature)
    (roots : List Signature) : (traverse p s { graph := g } roots).ordered.Nodup :=
  traverse_keeps (P := fun a => a.ordered.Nodup) (fun _ v h => nodup_insert h p v) s roots .nil

end Arrangement

end CallerFirst
