import CallerFirst.Proofs.CallGraph.LocalCalls
import CallerFirst.Proofs.CallGraph.SameCalls
import CallerFirst.Proofs.MethodOrder

/-!
# What an insertion does to the order and to the graph

A node that is placed in front of what it leads to loses its calls to the nodes that it passes, and
each of them closes a cycle; all else stays (`insert_drops_cycles`). Where there is no cycle nothing
is lost, and whatever is inserted, in any order, callers stand in front (`insertAll_callersFirst`).
-/

namespace CallerFirst

namespace CallGraph

variable {g : CallGraph Signature} {u v w : Signature}

/-- No callee is listed twice. -/
def Simple (g : CallGraph Signature) : Prop :=
  ∀ n ∈ g.nodes, n.callees.Nodup

instance (g : CallGraph Signature) : Decidable g.Simple :=
  inferInstanceAs (Decidable (∀ n ∈ g.nodes, n.callees.Nodup))

def without (g : CallGraph Signature) (v : Signature) (ws : List Signature) : CallGraph Signature :=
  g.modify v fun n => { n with callees := n.callees.filter (· ∉ ws) }

@[simp] theorem without_nil : g.without v [] = g := by
  simp [without, modify]

theorem Records.simple {finds : List Find} (h : g.Records finds) : g.Simple := by
  intro n hn
  rw [← callees_of_node? (node?_of_mem h.wellFormed.nodup hn), h.callees n.id]
  exact MemberOrder.nodup_eraseDups _

theorem simple_ofUnit {root : Node} {members : List Node} (h : Node.IsUnitOf key members root) :
    (ofUnit root).Simple :=
  ofUnit_eq h ▸ (recorded _).simple

theorem Simple.without (h : g.Simple) (v : Signature) (ws : List Signature) :
    (g.without v ws).Simple := by
  intro m hm
  obtain ⟨n, hn, rfl⟩ := List.mem_map.mp hm
  split
  · exact (h n hn).filter _
  · exact h n hn

theorem removeEdge_eq_without (h : g.Simple) (v w : Signature) :
    g.removeEdge v w = g.without v [w] := by
  unfold removeEdge without modify
  congr 1
  refine List.map_congr_left fun n hn => ?_
  have herase : n.callees.erase w = n.callees.filter (· ∉ [w]) := by
    rw [(h n hn).erase_eq_filter]
    exact List.filter_congr fun u _ => by simp [bne, Bool.beq_eq_decide_eq]
  simp only [herase]

theorem without_without (g : CallGraph Signature) (v w : Signature) (ws : List Signature) :
    (g.without v [w]).without v ws = g.without v (w :: ws) := by
  unfold without modify
  simp only [List.map_map]
  congr 1
  refine List.map_congr_left fun n _ => ?_
  by_cases hn : n.id = v <;> simp [hn, List.filter_filter, Bool.and_comm]

theorem callees_without (ws : List Signature) :
    (g.without v ws).callees u =
      if u = v then (g.callees u).filter (· ∉ ws) else g.callees u := by
  rw [callees, callees, without, node?_modify]
  · cases g.node? u with
    | none => simp
    | some n => by_cases h : u = v <;> simp [h]
  · exact fun _ => rfl

theorem calls_without {ws : List Signature} :
    (g.without v ws).Calls v w ↔ g.Calls v w ∧ w ∉ ws := by
  simp [Calls, callees_without]

end CallGraph

namespace Arrangement

variable {a : Arrangement Signature} {g : CallGraph Signature} {v : Signature}

-- ---------------------------------------------------------------------------
-- One insertion on any graph
-- ---------------------------------------------------------------------------

/-- Each node that is passed is one that `v` does not lead to in the graph of that moment, without
the calls to those passed before. -/
theorem placeBefore_passes (h : g.Simple) (v : Signature) (passed ahead : List Signature) :
    ∃ front back, ahead = front ++ back ∧
      placeBefore g v passed ahead =
        { graph := g.without v front, ordered := passed.reverse ++ (front ++ v :: back) } ∧
      (∀ w ∈ back.head?, leadsTo (g.without v front) v w = true) ∧
      ∀ xs w ys, front = xs ++ w :: ys → leadsTo (g.without v xs) v w = false := by
  -- every node that is passed takes a call away, so the rest is about another graph
  induction ahead generalizing g passed with
  | nil => exact ⟨[], [], rfl, by simp [placeBefore], by simp, by simp⟩
  | cons w ahead ih =>
    unfold placeBefore
    split
    · rename_i hlead
      refine ⟨[], w :: ahead, rfl, by simp, ?_, by simp⟩
      rintro _ ⟨⟩
      simpa using hlead
    · rename_i hlead
      rw [CallGraph.removeEdge_eq_without h]
      obtain ⟨front, back, rfl, heq, hback, hfront⟩ := ih (h.without v [w]) (w :: passed)
      simp only [CallGraph.without_without] at heq hback hfront
      refine ⟨w :: front, back, rfl, by simp [heq], hback, fun xs u ys hsplit => ?_⟩
      cases xs with
      | nil =>
        obtain ⟨rfl, rfl⟩ := List.cons.inj hsplit
        simpa using hlead
      | cons x xs =>
        obtain ⟨rfl, hrest⟩ := List.cons.inj hsplit
        exact hfront xs u ys hrest

/-- `v` stands between two parts of the old order, and its calls to the first part are gone. -/
structure DropsCycles (a a' : Arrangement Signature) (v : Signature)
    (front back : List Signature) : Prop where
  split : a.ordered = front ++ back
  ordered : a'.ordered = front ++ v :: back
  graph : a'.graph = a.graph.without v front
  simple : a'.graph.Simple
  noCalls : ∀ w ∈ front, ¬a'.graph.Calls v w
  next : ∀ w ∈ back.head?, a'.graph.Reaches v w ∧ ¬a'.graph.Reaches w v
  /-- A call that is dropped leads to a node that reaches `v` when it is passed. -/
  cycles : ∀ passed w rest, front = passed ++ w :: rest → a.graph.Calls v w → w ∉ passed →
    (a.graph.without v passed).Calls v w ∧ (a.graph.without v passed).Reaches w v

theorem insert_drops_cycles (hsimple : a.graph.Simple) (hv : v ∉ a.ordered) :
    ∃ front back, DropsCycles a (a.insert .beforeCallees v) v front back := by
  obtain ⟨front, back, hsplit, heq, hback, hfront⟩ := placeBefore_passes hsimple v [] a.ordered
  have hinsert : a.insert .beforeCallees v =
      { graph := a.graph.without v front, ordered := front ++ v :: back } := by
    unfold insert
    rw [if_neg (mt contains_iff.mp hv)]
    exact heq
  rw [hinsert]
  refine ⟨front, back, hsplit, rfl, rfl, hsimple.without v front, ?_, ?_, ?_⟩
  · exact fun w hw hcall => (CallGraph.calls_without.mp hcall).2 hw
  · exact fun w hw => leadsTo_iff.mp (hback w hw)
  · intro passed w rest hpassed hcall hw
    have hcall : (a.graph.without v passed).Calls v w := CallGraph.calls_without.mpr ⟨hcall, hw⟩
    refine ⟨hcall, ?_⟩
    have hlead := hfront passed w rest hpassed
    rw [← Bool.not_eq_true, leadsTo_iff, not_and_not_right] at hlead
    exact hlead (.single hcall)

def ring : CallGraph Signature :=
  .ofEdges [(⟨"a()"⟩, [⟨"b()"⟩, ⟨"c()"⟩, ⟨"d()"⟩]), (⟨"b()"⟩, [⟨"c()"⟩]), (⟨"c()"⟩, [⟨"a()"⟩])]

theorem insert_drops_cycles_ring :
    ring.Simple ∧ ⟨"a()"⟩ ∉ [⟨"b()"⟩, ⟨"c()"⟩, (⟨"d()"⟩ : Signature)] ∧
    (∃ front back,
      DropsCycles { graph := ring, ordered := [⟨"b()"⟩, ⟨"c()"⟩, ⟨"d()"⟩] }
        (insert .beforeCallees { graph := ring, ordered := [⟨"b()"⟩, ⟨"c()"⟩, ⟨"d()"⟩] } ⟨"a()"⟩)
        ⟨"a()"⟩ front back) ∧
    (insert .beforeCallees { graph := ring, ordered := [⟨"b()"⟩, ⟨"c()"⟩, ⟨"d()"⟩] }
      ⟨"a()"⟩).ordered = [⟨"b()"⟩, ⟨"c()"⟩, ⟨"a()"⟩, ⟨"d()"⟩] := by
  have hsimple : ring.Simple := by decide
  have hnew : ⟨"a()"⟩ ∉ [⟨"b()"⟩, ⟨"c()"⟩, (⟨"d()"⟩ : Signature)] := by decide
  refine ⟨hsimple, hnew, insert_drops_cycles hsimple hnew, by decide⟩

-- ---------------------------------------------------------------------------
-- Any insertions on a graph without cycles
-- ---------------------------------------------------------------------------

def insertAll (p : Placement) (a : Arrangement Signature) (vs : List Signature) :
    Arrangement Signature :=
  vs.foldl (insert p) a

theorem insertAll_keeps {P : Arrangement Signature → Prop} {p : Placement}
    (hinsert : ∀ a v, P a → P (a.insert p v)) (vs : List Signature) (h : P a) :
    P (insertAll p a vs) := by
  induction vs generalizing a with
  | nil => exact h
  | cons v vs ih => exact ih (hinsert a v h)

theorem mem_insertAll {p : Placement} {vs : List Signature} :
    u ∈ (insertAll p a vs).ordered ↔ u ∈ vs ∨ u ∈ a.ordered := by
  induction vs generalizing a with
  | nil => simp [insertAll]
  | cons v vs ih =>
    have := ih (a := a.insert p v)
    simp only [insertAll, List.foldl_cons] at this ⊢
    rw [this, mem_insert, List.mem_cons, or_left_comm, or_assoc]

/-- No call is lost, every node that was inserted is listed once, and callers stand in front of all
that they lead to. -/
structure CallersFirst (g : CallGraph Signature) (vs : List Signature)
    (a : Arrangement Signature) : Prop where
  graph_eq : a.graph = g
  nodup : a.ordered.Nodup
  mem_iff : ∀ s, s ∈ a.ordered ↔ s ∈ vs
  before : ∀ u ∈ a.ordered, ∀ w ∈ a.ordered, u ≠ w → g.Reaches u w →
    a.ordered.idxOf u < a.ordered.idxOf w

/-- A node that calls itself is no cycle here. -/
theorem insertAll_callersFirst (hd : g.ids.Nodup) (hac : g.Acyclic) (vs : List Signature) :
    CallersFirst g vs (insertAll .beforeCallees { graph := g } vs) := by
  have hordered : Ordered g (insertAll .beforeCallees { graph := g } vs) :=
    insertAll_keeps (fun _ _ h => h.insert hd hac) vs ⟨rfl, .nil⟩
  refine ⟨hordered.graph_eq, hordered.stepdown.nodup, fun s => by simp [mem_insertAll], ?_⟩
  exact fun u hu w hw hne hreach => hordered.stepdown.idxOf_lt hu hw hne hreach

def twoWays : CallGraph Signature :=
  .ofEdges [(⟨"a()"⟩, [⟨"c()"⟩, ⟨"b()"⟩]), (⟨"b()"⟩, [⟨"b()"⟩, ⟨"d()"⟩]), (⟨"c()"⟩, [⟨"d()"⟩])]

theorem insertAll_callersFirst_twoWays :
    twoWays.ids.Nodup ∧ twoWays.Acyclic ∧
    CallersFirst twoWays [⟨"d()"⟩, ⟨"b()"⟩, ⟨"d()"⟩, ⟨"a()"⟩, ⟨"c()"⟩]
      (insertAll .beforeCallees { graph := twoWays }
        [⟨"d()"⟩, ⟨"b()"⟩, ⟨"d()"⟩, ⟨"a()"⟩, ⟨"c()"⟩]) ∧
    (insertAll .beforeCallees { graph := twoWays }
      [⟨"d()"⟩, ⟨"b()"⟩, ⟨"d()"⟩, ⟨"a()"⟩, ⟨"c()"⟩]).ordered =
        [⟨"a()"⟩, ⟨"b()"⟩, ⟨"c()"⟩, ⟨"d()"⟩] := by
  have hd : twoWays.ids.Nodup := by decide
  have hac : twoWays.Acyclic := by decide
  exact ⟨hd, hac, insertAll_callersFirst hd hac _, by decide⟩

end Arrangement

end CallerFirst
