import CallerFirst.Proofs.CallGraph.Record
import CallerFirst.Proofs.Traversal

/-!
# Traversals are complete

Placing a node drops calls of that node alone, and its callees are pending before it is placed. So
the calls that a traversal has still to follow are those of the graph it started with, and
`traverse_complete`: it comes to its end with what its roots reach, each once, whatever was dropped on
the way.
-/

namespace CallerFirst

open StateTransition

namespace CallGraph

variable {g : CallGraph Signature} {f : CallNode Signature → CallNode Signature}
  {reached : List Signature} {v w : Signature}

theorem callees_modify (hf : ∀ n, (f n).id = n.id) (h : w ≠ v) :
    (g.modify v f).callees w = g.callees w := by
  simp [callees, node?_modify hf, h]

theorem unmet_modify (hf : ∀ n, (f n).id = n.id) (hv : v ∈ reached) :
    unmet reached (g.modify v f).nodes = unmet reached g.nodes := by
  unfold modify
  induction g.nodes with
  | nil => rfl
  | cons n nodes ih =>
    simp only [List.map_cons, unmet, ih]
    by_cases hn : n.id = v
    · simp [hn, hf, hv]
    · simp [hn]

end CallGraph

namespace Arrangement

variable {g : CallGraph Signature} {a : Arrangement Signature} {p : Placement} {s : Strategy}
  {starts roots reached : List Signature} {v w : Signature}

-- ---------------------------------------------------------------------------
-- What placing leaves
-- ---------------------------------------------------------------------------

theorem callees_placeBefore (passed ahead : List Signature) (h : w ≠ v) :
    (placeBefore g v passed ahead).graph.callees w = g.callees w := by
  induction ahead generalizing g passed with
  | nil => rfl
  | cons u ahead ih =>
    unfold placeBefore
    split
    · rfl
    · exact (ih (u :: passed)).trans (CallGraph.callees_modify (fun _ => rfl) h)

theorem unmet_placeBefore (passed ahead : List Signature) (hv : v ∈ reached) :
    CallGraph.unmet reached (placeBefore g v passed ahead).graph.nodes =
      CallGraph.unmet reached g.nodes := by
  induction ahead generalizing g passed with
  | nil => rfl
  | cons u ahead ih =>
    unfold placeBefore
    split
    · rfl
    · exact (ih (u :: passed)).trans (CallGraph.unmet_modify (fun _ => rfl) hv)

theorem callees_insert (p : Placement) (a : Arrangement Signature) (h : w ≠ v) :
    (a.insert p v).graph.callees w = a.graph.callees w := by
  unfold Arrangement.insert
  split
  · rfl
  · cases p with
    | append => rfl
    | beforeCallees => exact callees_placeBefore [] a.ordered h

theorem unmet_insert (p : Placement) (a : Arrangement Signature) (hv : v ∈ reached) :
    CallGraph.unmet reached (a.insert p v).graph.nodes = CallGraph.unmet reached a.graph.nodes := by
  unfold Arrangement.insert
  split
  · rfl
  · cases p with
    | append => rfl
    | beforeCallees => exact unmet_placeBefore [] a.ordered hv

-- ---------------------------------------------------------------------------
-- From one root
-- ---------------------------------------------------------------------------

/-- The search from a root: a node is inserted, and its callees come first or last among those that
are pending. -/
def visiting (p : Placement) (s : Strategy) : Search (Arrangement Signature) Signature where
  found := Arrangement.ordered
  take a v pending := (a.insert p v, match s with
    | .depthFirst => a.graph.callees v ++ pending
    | .breadthFirst => pending ++ a.graph.callees v)

theorem visit_eq (fuel : Nat) (a : Arrangement Signature) (pending : List Signature) :
    visit p s fuel a pending = (runFor (visiting p s).round fuel (a, pending)).1 := by
  induction fuel generalizing a pending with
  | zero => rfl
  | succ fuel ih =>
    cases pending with
    | nil => rfl
    | cons v pending =>
      unfold visit
      split
      · rename_i hv
        rw [runFor_of_round (Search.round_of_mem (contains_iff.mp hv))]
        exact ih _ _
      · rename_i hv
        rw [runFor_of_round (Search.round_of_not_mem (mt contains_iff.mpr hv))]
        cases s <;> exact ih _ _

def Untouched (g : CallGraph Signature) (a : Arrangement Signature) : Prop :=
  ∀ v, v ∉ a.ordered → a.graph.callees v = g.callees v

theorem visiting_follows (p : Placement) (s : Strategy) (g : CallGraph Signature) :
    (visiting p s).Follows g.Calls (Untouched g) fun a => CallGraph.unmet a.ordered a.graph.nodes := by
  intro a v pending huntouched hv
  have hv : v ∉ a.ordered := hv
  have hcallees : a.graph.callees v = g.callees v := huntouched v hv
  have hpending (w : Signature) :
      w ∈ ((visiting p s).take a v pending).2 ↔ w ∈ pending ∨ g.Calls v w := by
    cases s <;> simp [visiting, CallGraph.Calls, hcallees, or_comm]
  refine ⟨fun w hw => ?_, fun w => mem_insert, ?_, fun w hw => (hpending w).mp hw,
    fun w hw => .inl ((hpending w).mpr hw)⟩
  · obtain ⟨hwv, hw⟩ := not_or.mp (mt mem_insert.mpr hw)
    exact (callees_insert p a hwv).trans (huntouched w hw)
  · have hcount := CallGraph.length_callees_add_unmet a.graph _ hv
    have hsame : CallGraph.unmet (a.insert p v).ordered (a.insert p v).graph.nodes =
        CallGraph.unmet (v :: a.ordered) a.graph.nodes :=
      (unmet_insert p a (mem_insert.mpr (.inl rfl))).trans
        (CallGraph.unmet_congr (fun u => by rw [mem_insert, List.mem_cons]) a.graph.nodes)
    cases s <;> simp only [visiting, List.length_append] <;> omega

-- ---------------------------------------------------------------------------
-- From all roots
-- ---------------------------------------------------------------------------

/-- What is arranged is what the nodes reach that the traversal started from so far. -/
structure Explored (g : CallGraph Signature) (starts : List Signature)
    (a : Arrangement Signature) : Prop where
  untouched : Untouched g a
  explores : Explores g.Calls starts [] a.ordered

theorem Explored.init (g : CallGraph Signature) : Explored g [] { graph := g } :=
  ⟨fun _ _ => rfl, .init []⟩

theorem Explored.mem_iff (h : Explored g starts a) :
    v ∈ a.ordered ↔ ∃ u ∈ starts, g.Reaches u v :=
  h.explores.mem_iff

theorem Explored.visit (h : Explored g starts a) (p : Placement) (s : Strategy) (root : Signature) :
    let b := visit p s (a.graph.edgeCount + 2) a [root]
    (b, []) ∈ eval (visiting p s).round (a, [root]) ∧ Explored g (starts ++ [root]) b := by
  obtain ⟨b, hrun, heval, huntouched, hexplores⟩ := (visiting_follows p s g).run
    (n := a.graph.edgeCount + 2) h.untouched (h.explores.start root) (by
      have := CallGraph.unmet_le a.ordered a.graph
      rw [List.length_singleton]
      omega)
  intro b'
  obtain rfl : b' = b := (visit_eq ..).trans (congrArg Prod.fst hrun)
  exact ⟨heval, huntouched, hexplores⟩

/-- The traversal as a relation: the search from each root in turn comes to its end. -/
inductive Traverses (p : Placement) (s : Strategy) :
    Arrangement Signature → List Signature → Arrangement Signature → Prop
  | done {a : Arrangement Signature} : Traverses p s a [] a
  | root {a b c : Arrangement Signature} {root : Signature} {roots : List Signature} :
    (b, []) ∈ eval (visiting p s).round (a, [root]) → Traverses p s b roots c →
    Traverses p s a (root :: roots) c

theorem Explored.traverse (h : Explored g starts a) (p : Placement) (s : Strategy)
    (roots : List Signature) :
    Traverses p s a roots (traverse p s a roots) ∧
      Explored g (starts ++ roots) (traverse p s a roots) := by
  induction roots generalizing starts a with
  | nil => exact ⟨.done, by simpa [Arrangement.traverse] using h⟩
  | cons root roots ih =>
    obtain ⟨heval, hvisit⟩ := h.visit p s root
    obtain ⟨htraverses, htraverse⟩ := ih hvisit
    rw [List.append_assoc] at htraverse
    exact ⟨.root heval htraverses, htraverse⟩

theorem mem_traverse : v ∈ (traverse p s { graph := g } roots).ordered ↔
    ∃ root ∈ roots, g.Reaches root v := by
  simpa using ((Explored.init g).traverse p s roots).2.mem_iff

theorem mem_traverse_root (h : v ∈ roots) : v ∈ (traverse p s { graph := g } roots).ordered :=
  mem_traverse.mpr ⟨v, h, .refl⟩

theorem traverse_complete (p : Placement) (s : Strategy) (g : CallGraph Signature)
    (roots : List Signature) :
    let a := traverse p s { graph := g } roots
    Traverses p s { graph := g } roots a ∧ a.ordered.Nodup ∧
      ∀ v, v ∈ a.ordered ↔ ∃ root ∈ roots, g.Reaches root v :=
  ⟨((Explored.init g).traverse p s roots).1, nodup_traverse p s g roots, fun _ => mem_traverse⟩

end Arrangement

end CallerFirst
