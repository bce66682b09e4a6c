import CallerFirst.CallGraph.Extract
import CallerFirst.Proofs.CallGraph.Reach
import CallerFirst.Proofs.Walk
import Mathlib.Tactic.Common

/-!
# The graph that is read from a unit

Every signature has one node, and every callee has one (`ofUnit_wellFormed`). All methods of the type
that counts are nodes, whether they call or are called or not (`mem_ids_ofUnit`).
-/

namespace CallerFirst.CallGraph

variable {g : CallGraph Signature}

/-- One node for each signature, and one for each callee. -/
structure WellFormed (g : CallGraph Signature) : Prop where
  nodup : g.ids.Nodup
  closed : ∀ n ∈ g.nodes, ∀ w ∈ n.callees, w ∈ g.ids

theorem WellFormed.mem_ids_of_reaches (h : g.WellFormed) (ha : a ∈ g.ids) (hab : g.Reaches a b) :
    b ∈ g.ids := by
  induction hab with
  | refl => exact ha
  | tail _ hbc _ =>
    obtain ⟨n, hn, -, hw⟩ := exists_node_of_calls hbc
    exact h.closed n hn _ hw

-- ---------------------------------------------------------------------------
-- Operations on graphs
-- ---------------------------------------------------------------------------

theorem mem_ids_create : s ∈ (g.create v).ids ↔ s ∈ g.ids ∨ s = v := by
  unfold create
  split
  · rename_i h
    have hv : v ∈ g.ids := by simpa [contains] using h
    exact ⟨.inl, fun hs => hs.elim id fun hs => hs ▸ hv⟩
  · simp [ids]

theorem WellFormed.create (h : g.WellFormed) : (g.create v).WellFormed := by
  unfold CallGraph.create
  split
  · exact h
  · rename_i hv
    have hv : v ∉ g.ids := by simpa [contains] using hv
    refine ⟨?_, ?_⟩
    · simp only [ids, List.map_append, List.map_cons, List.map_nil]
      refine List.nodup_append.mpr ⟨h.nodup, List.nodup_singleton v, ?_⟩
      rintro a ha b hb rfl
      exact hv (List.mem_singleton.mp hb ▸ ha)
    · intro n hn w hw
      rcases List.mem_append.mp hn with hn | hn
      · simpa [ids] using .inl (by simpa [ids] using h.closed n hn w hw)
      · rw [List.mem_singleton.mp hn] at hw
        cases hw

theorem ids_modify {f : CallNode Signature → CallNode Signature} (hf : ∀ n, (f n).id = n.id) :
    (g.modify v f).ids = g.ids := by
  simp only [ids, modify, List.map_map]
  refine List.map_congr_left fun n _ => ?_
  simp only [Function.comp_apply]
  split
  · exact hf n
  · rfl

theorem WellFormed.modify {f : CallNode Signature → CallNode Signature} (h : g.WellFormed)
    (hf : ∀ n, (f n).id = n.id) (hw : ∀ n, ∀ w ∈ (f n).callees, w ∈ n.callees ∨ w ∈ g.ids) :
    (g.modify v f).WellFormed := by
  refine ⟨(ids_modify hf).symm ▸ h.nodup, fun m hm w hm' => ?_⟩
  rw [ids_modify hf]
  obtain ⟨n, hn, rfl⟩ := List.mem_map.mp hm
  split at hm'
  · exact (hw n w hm').elim (h.closed n hn w) id
  · exact h.closed n hn w hm'

theorem ids_addEdge : (g.addEdge a b).ids = g.ids := by
  unfold addEdge
  split
  · rfl
  · rw [ids_modify, ids_modify]
    all_goals exact fun _ => rfl

theorem WellFormed.addEdge (h : g.WellFormed) (hb : b ∈ g.ids) : (g.addEdge a b).WellFormed := by
  unfold CallGraph.addEdge
  split
  · exact h
  · refine WellFormed.modify (WellFormed.modify h ?_ fun n w hw => ?_) ?_ fun n w hw => .inl hw
    · exact fun _ => rfl
    · rcases List.mem_append.mp hw with hw | hw
      · exact .inl hw
      · exact .inr (List.mem_singleton.mp hw ▸ hb)
    · exact fun _ => rfl

-- ---------------------------------------------------------------------------
-- Steps of an extraction
-- ---------------------------------------------------------------------------

namespace Extraction

variable {e : Extraction}

structure Extends (e e' : Extraction) : Prop where
  wellFormed : e.graph.WellFormed → e'.graph.WellFormed
  ids : ∀ s ∈ e.graph.ids, s ∈ e'.graph.ids

theorem Extends.refl : e.Extends e :=
  ⟨id, fun _ => id⟩

theorem Extends.trans (h : Extends e₁ e₂) (h' : Extends e₂ e₃) : Extends e₁ e₃ :=
  ⟨h'.wellFormed ∘ h.wellFormed, fun s hs => h'.ids s (h.ids s hs)⟩

theorem Extends.of_graph_eq (h : e'.graph = e.graph) : Extends e e' :=
  ⟨fun hw => h ▸ hw, fun _ hs => h ▸ hs⟩

theorem extends_start : e.Extends (e.start s) :=
  ⟨.create, fun _ ht => mem_ids_create.mpr (.inl ht)⟩

theorem extends_withCaller : e.Extends e.withCaller := by
  unfold withCaller
  split
  · exact extends_start
  · exact .refl

theorem extends_call : e.Extends (e.call callee) := by
  let made : Extraction := { e with graph := e.graph.create callee }
  have hmade : e.Extends made := ⟨.create, fun _ ht => mem_ids_create.mpr (.inl ht)⟩
  have hcallee : callee ∈ made.withCaller.graph.ids :=
    extends_withCaller.ids _ (mem_ids_create.mpr (.inr rfl))
  refine hmade.trans (extends_withCaller.trans ?_)
  simp only [call]
  split
  · exact ⟨fun h => h.addEdge hcallee, fun s hs => ids_addEdge.symm ▸ hs⟩
  · exact .refl

theorem extends_enter (n : Node) : e.Extends (visitor.enter n e).2 := by
  cases n with
  | method => exact extends_start
  | initializer => exact extends_start.trans (.of_graph_eq rfl)
  | call name hasQualifier binding arguments =>
    show e.Extends ((e.localCall? hasQualifier binding).elim e e.call)
    cases e.localCall? hasQualifier binding with
    | none => exact .refl
    | some callee => exact extends_call
  | _ => exact .of_graph_eq rfl

theorem extends_leave (n : Node) : e.Extends (visitor.leave n e) := by
  cases n <;> exact .of_graph_eq rfl

theorem extends_visit (n : Node) : e.Extends (visitor.visit n e) :=
  Visitor.visit_keeps (fun n _ h => h.trans (extends_enter n))
    (fun n _ h => h.trans (extends_leave n)) n .refl

theorem extends_visitAll (ns : List Node) : e.Extends (visitor.visitAll ns e) :=
  Visitor.visitAll_keeps (fun n _ h => h.trans (extends_enter n))
    (fun n _ h => h.trans (extends_leave n)) ns .refl

theorem mem_ids_visitAll (h : .method place header body ∈ ns) :
    .ofMethod header ∈ (visitor.visitAll ns e).graph.ids := by
  induction ns generalizing e with
  | nil => cases h
  | cons n ns ih =>
    show _ ∈ (visitor.visitAll ns (visitor.visit n e)).graph.ids
    rcases List.mem_cons.mp h with rfl | h
    · refine (extends_visitAll ns).ids _ ?_
      rw [Visitor.visit_eq]
      refine (extends_leave _).ids _ ((extends_visitAll body).ids _ ?_)
      exact mem_ids_create.mpr (.inr rfl)
    · exact ih h

end Extraction

-- ---------------------------------------------------------------------------
-- The graph of a unit
-- ---------------------------------------------------------------------------

theorem ofUnit_wellFormed (unit : Node) : (ofUnit unit).WellFormed := by
  rw [ofUnit, Visitor.walk_eq_visit]
  exact (Extraction.extends_visit unit).wellFormed ⟨.nil, by simp⟩

theorem mem_ids_ofUnit {header : TypeHeader} {types : List Node} {b : TypeBinding}
    (hb : header.binding = some b) (hprimary : b.isPrimary = true)
    (h : .method mplace m body ∈ members) :
    .ofMethod m ∈ (ofUnit (.unit source package (.type place header members :: types))).ids := by
  rw [ofUnit, Visitor.walk_eq_visit, Visitor.visit_eq]
  refine (Extraction.extends_leave _).ids _ ?_
  show _ ∈ (Extraction.visitor.visitAll types (Extraction.visitor.visit _ {})).graph.ids
  refine (Extraction.extends_visitAll types).ids _ ?_
  rw [Visitor.visit_eq]
  refine (Extraction.extends_leave _).ids _ ?_
  have hdeeper : (Extraction.visitor.enter (.type place header members) {}).1 = true := by
    simp [Extraction.visitor, Extraction.enterType, TopLevel.enterType, hb, hprimary]
  rw [if_pos hdeeper]
  exact Extraction.mem_ids_visitAll h

end CallerFirst.CallGraph
