import CallerFirst.CallGraph
import CallerFirst.Proofs.Search

/-!
# Reachability

`mem_reach`: the signatures that a search meets are those that a chain of calls leads to. The search
has fuel for every call, so it comes to its end (`reach_mem_eval`); `unmet` counts the calls it has
still to follow.
-/

namespace CallerFirst.CallGraph

variable {g : CallGraph Signature}

def Calls (g : CallGraph Signature) (a b : Signature) : Prop :=
  b ∈ g.callees a

/-- A chain of calls leads from one signature to another; a signature leads to itself. -/
abbrev Reaches (g : CallGraph Signature) : Signature → Signature → Prop :=
  Relation.ReflTransGen g.Calls

theorem node?_id {n : CallNode Signature} (h : g.node? v = some n) : n.id = v := by
  simpa using List.find?_some h

theorem callees_of_node? {n : CallNode Signature} (h : g.node? v = some n) :
    g.callees v = n.callees := by
  simp [callees, h]

theorem exists_node_of_calls (h : g.Calls a b) :
    ∃ n ∈ g.nodes, n.id = a ∧ b ∈ n.callees := by
  cases hn : g.node? a with
  | none => simp [Calls, callees, hn] at h
  | some n =>
    rw [Calls, callees_of_node? hn] at h
    exact ⟨n, List.mem_of_find?_eq_some hn, node?_id hn, h⟩

-- ---------------------------------------------------------------------------
-- Calls to follow
-- ---------------------------------------------------------------------------

def unmet (reached : List Signature) : List (CallNode Signature) → Nat
  | [] => 0
  | n :: rest => (if n.id ∈ reached then 0 else n.callees.length) + unmet reached rest

theorem unmet_cons_le (reached : List Signature) (v : Signature)
    (nodes : List (CallNode Signature)) : unmet (v :: reached) nodes ≤ unmet reached nodes := by
  induction nodes with
  | nil => exact Nat.le_refl _
  | cons n nodes ih =>
    simp only [unmet, List.mem_cons]
    by_cases hr : n.id ∈ reached
    · simpa [hr] using ih
    · by_cases hv : n.id = v <;> simp [hv, hr] at ih ⊢ <;> omega

theorem unmet_cons {reached : List Signature} {nodes : List (CallNode Signature)}
    {n : CallNode Signature} (hn : nodes.find? (·.id = v) = some n) (hv : v ∉ reached) :
    n.callees.length + unmet (v :: reached) nodes ≤ unmet reached nodes := by
  induction nodes with
  | nil => simp at hn
  | cons m nodes ih =>
    have hrest := unmet_cons_le reached v nodes
    simp only [unmet, List.mem_cons]
    by_cases hm : m.id = v
    · obtain rfl : m = n := by simpa [List.find?_cons, hm] using hn
      simp only [hm, true_or, hv, ↓reduceIte]
      omega
    · have := ih (by simpa [List.find?_cons, hm] using hn)
      simp only [hm, false_or]
      split <;> omega

theorem length_callees_add_unmet (g : CallGraph Signature) (reached : List Signature)
    (hv : v ∉ reached) :
    (g.callees v).length + unmet (v :: reached) g.nodes ≤ unmet reached g.nodes := by
  cases hn : g.node? v with
  | none =>
    have := unmet_cons_le reached v g.nodes
    simpa [callees, hn] using this
  | some n =>
    rw [callees_of_node? hn]
    exact unmet_cons hn hv

theorem unmet_congr {xs ys : List Signature} (h : ∀ s, s ∈ xs ↔ s ∈ ys)
    (nodes : List (CallNode Signature)) : unmet xs nodes = unmet ys nodes := by
  induction nodes with
  | nil => rfl
  | cons n nodes ih => simp only [unmet, h, ih]

theorem unmet_nil (g : CallGraph Signature) : unmet [] g.nodes = g.edgeCount := by
  unfold edgeCount
  induction g.nodes with
  | nil => rfl
  | cons n nodes ih => simpa [unmet] using ih

theorem unmet_le (reached : List Signature) (g : CallGraph Signature) :
    unmet reached g.nodes ≤ g.edgeCount := by
  rw [← unmet_nil]
  induction g.nodes with
  | nil => exact Nat.le_refl _
  | cons n nodes ih =>
    simp only [unmet, List.not_mem_nil, ↓reduceIte]
    split <;> omega

-- ---------------------------------------------------------------------------
-- The search
-- ---------------------------------------------------------------------------

def reaching (g : CallGraph Signature) : Search (List Signature) Signature where
  found := id
  take reached v stack :=
    (v :: reached, ((g.callees v).filter fun w => !(v :: reached).contains w).reverse ++ stack)

theorem reachFrom_eq (fuel : Nat) (stack reached : List Signature) :
    g.reachFrom fuel stack reached = (runFor g.reaching.round fuel (reached, stack)).1 := by
  induction fuel generalizing stack reached with
  | zero => rfl
  | succ fuel ih =>
    cases stack with
    | nil => rfl
    | cons v stack =>
      unfold reachFrom
      simp only [signature_signature]
      split
      · rename_i hv
        rw [runFor_of_round (Search.round_of_mem (List.contains_iff_mem.mp hv))]
        exact ih _ _
      · rename_i hv
        rw [runFor_of_round (Search.round_of_not_mem (mt List.contains_iff_mem.mpr hv))]
        exact ih _ _

theorem reaching_follows (g : CallGraph Signature) :
    g.reaching.Follows g.Calls (fun _ => True) fun reached => unmet reached g.nodes := by
  intro reached v stack _ hv
  have hstack (w : Signature) : w ∈ (g.reaching.take reached v stack).2 ↔
      (g.Calls v w ∧ w ∉ v :: reached) ∨ w ∈ stack := by
    simp [reaching, Calls]
  refine ⟨trivial, fun w => List.mem_cons, ?_, fun w hw => ?_, fun w hw => ?_⟩
  · have hcount := length_callees_add_unmet g reached hv
    have hfresh := List.length_filter_le (fun w => !(v :: reached).contains w) (g.callees v)
    simp only [reaching, List.length_append, List.length_reverse]
    omega
  · exact ((hstack w).mp hw).symm.imp id And.left
  · by_cases hmet : w ∈ v :: reached
    · exact .inr hmet
    · exact .inl ((hstack w).mpr (hw.symm.imp (fun hcall => ⟨hcall, hmet⟩) id))

/-- A search has the fuel that it needs, and meets what a chain of calls leads to. -/
theorem reach_spec (g : CallGraph Signature) (v : Signature) :
    (g.reach v, []) ∈ StateTransition.eval g.reaching.round ([], [v]) ∧
      ∀ s, s ∈ g.reach v ↔ g.Reaches v s := by
  obtain ⟨reached, hrun, heval, -, hexplored⟩ := g.reaching_follows.run (n := g.edgeCount + 2)
    trivial (.init [v]) (by simp [unmet_nil]; omega)
  have hreach : g.reach v = reached := by rw [reach, reachFrom_eq, hrun]
  refine ⟨hreach ▸ heval, fun s => ?_⟩
  have hmem : s ∈ reached ↔ ∃ u ∈ [v], g.Reaches u s := hexplored.mem_iff
  simpa [hreach] using hmem

theorem mem_reach : s ∈ g.reach v ↔ g.Reaches v s :=
  (g.reach_spec v).2 s

end CallerFirst.CallGraph
