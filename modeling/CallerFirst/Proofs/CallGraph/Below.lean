import CallerFirst.Comparator.Criteria
import CallerFirst.Proofs.CallGraph.Reach

/-!
# Reachability as it is compared

The comparison by reachability works on a copy of the graph below some nodes. `lookup_reachability`:
what it holds for a node is what a chain of calls leads to, so of two nodes the one comes first that
leads to the other and not back (`compareReach_eq`).
-/

namespace CallerFirst.CallGraph

variable {g : CallGraph Signature} {a b s : Signature}

-- ---------------------------------------------------------------------------
-- The copy
-- ---------------------------------------------------------------------------

def edgesOf (g : CallGraph Signature) (vertices : List Signature) : List (Signature × Signature) :=
  vertices.flatMap fun v => (g.callees v).map (v, ·)

/-- A copy of the graph on its vertices. -/
structure Below.Copies (g : CallGraph Signature) (b : Below) : Prop where
  nodup : b.vertices.Nodup
  edges : b.edges = g.edgesOf b.vertices

theorem Below.Copies.add {b : Below} (h : b.Copies g) (hv : v ∉ b.vertices) :
    Below.Copies g
      { vertices := b.vertices ++ [v], edges := b.edges ++ (g.callees v).map (v, ·) } where
  nodup := by
    refine List.nodup_append.mpr ⟨h.nodup, by simp, ?_⟩
    rintro w hw u hu rfl
    exact hv (List.mem_singleton.mp hu ▸ hw)
  edges := by simp [edgesOf, h.edges]

/-- The search over a queue: a vertex is copied with its calls, and those of its callees that are not
copied yet come behind the others. -/
def copying (g : CallGraph Signature) : Search Below Signature where
  found := Below.vertices
  take b v queue :=
    ({ vertices := b.vertices ++ [v], edges := b.edges ++ (g.callees v).map (v, ·) },
      queue ++ (g.callees v).filter fun w => !(b.vertices ++ [v]).contains w)

theorem belowFrom_eq (fuel : Nat) (queue : List Signature) (b : Below) :
    g.belowFrom fuel queue b = (runFor g.copying.round fuel (b, queue)).1 := by
  induction fuel generalizing queue b with
  | zero => rfl
  | succ fuel ih =>
    cases queue with
    | nil => rfl
    | cons v queue =>
      unfold belowFrom
      simp only [signature_signature]
      split
      · rename_i hv
        rw [runFor_of_round (Search.round_of_mem (List.contains_iff_mem.mp hv))]
        exact ih _ _
      · rename_i hv
        rw [runFor_of_round (Search.round_of_not_mem (mt List.contains_iff_mem.mpr hv))]
        exact ih _ _

theorem copying_follows (g : CallGraph Signature) :
    g.copying.Follows g.Calls (Below.Copies g) fun b => unmet b.vertices g.nodes := by
  intro b v queue hcopies hv
  have hv : v ∉ b.vertices := hv
  have hqueue (w : Signature) : w ∈ (g.copying.take b v queue).2 ↔
      w ∈ queue ∨ g.Calls v w ∧ w ∉ b.vertices ++ [v] := by
    simp [copying, Calls]
  refine ⟨hcopies.add hv, fun w => ?_, ?_, fun w hw => ?_, fun w hw => ?_⟩
  · simp [copying, or_comm]
  · have hcount := length_callees_add_unmet g _ hv
    have hsame : unmet (b.vertices ++ [v]) g.nodes = unmet (v :: b.vertices) g.nodes :=
      unmet_congr (by simp [or_comm]) g.nodes
    have hfresh :=
      List.length_filter_le (fun w => !(b.vertices ++ [v]).contains w) (g.callees v)
    simp only [copying, List.length_append]
    omega
  · exact ((hqueue w).mp hw).imp id And.left
  · by_cases hmet : w ∈ b.vertices ++ [v]
    · exact .inr hmet
    · exact .inl ((hqueue w).mpr (hw.imp id fun hcall => ⟨hcall, hmet⟩))

theorem below_spec (g : CallGraph Signature) (nodes : List Signature) :
    (g.below nodes, []) ∈ StateTransition.eval g.copying.round ({}, nodes) ∧
      (g.below nodes).Copies g ∧
      ∀ s, s ∈ (g.below nodes).vertices ↔ ∃ v ∈ nodes, g.Reaches v s := by
  obtain ⟨b, hrun, heval, hcopies, hexplored⟩ := g.copying_follows.run
    (n := nodes.length + g.edgeCount + 1) (s := {}) ⟨List.nodup_nil, rfl⟩ (.init nodes)
    (by rw [unmet_nil]; omega)
  have hbelow : g.below nodes = b := by rw [below, belowFrom_eq, hrun]
  rw [hbelow]
  exact ⟨heval, hcopies, fun s => hexplored.mem_iff⟩

theorem below_copies (g : CallGraph Signature) (nodes : List Signature) :
    (g.below nodes).Copies g :=
  (g.below_spec nodes).2.1

theorem mem_vertices_below {nodes : List Signature} :
    s ∈ (g.below nodes).vertices ↔ ∃ v ∈ nodes, g.Reaches v s :=
  (g.below_spec nodes).2.2 s

theorem mem_below {nodes : List Signature} (h : a ∈ nodes) : a ∈ (g.below nodes).vertices :=
  mem_vertices_below.mpr ⟨a, h, .refl⟩

theorem below_closed {nodes : List Signature} (ha : a ∈ (g.below nodes).vertices)
    (hab : g.Calls a b) : b ∈ (g.below nodes).vertices := by
  obtain ⟨v, hv, hva⟩ := mem_vertices_below.mp ha
  exact mem_vertices_below.mpr ⟨v, hv, hva.tail hab⟩

-- ---------------------------------------------------------------------------
-- Closure
-- ---------------------------------------------------------------------------

namespace Below

variable {b : Below}

theorem mem_targets (h : b.Copies g) (ht : t ∈ b.targets s) : g.Calls s t := by
  obtain ⟨⟨u, w⟩, he, rfl⟩ := List.mem_map.mp ht
  obtain ⟨hedge, rfl⟩ : (u, w) ∈ b.edges ∧ u = s := by simpa using List.mem_filter.mp he
  rw [h.edges] at hedge
  obtain ⟨v, -, hv⟩ := List.mem_flatMap.mp hedge
  obtain ⟨t, ht, heq⟩ := List.mem_map.mp hv
  cases heq
  exact ht

theorem mem_targets_of_calls (h : b.Copies g) (hs : s ∈ b.vertices) (hst : g.Calls s t) :
    t ∈ b.targets s := by
  refine List.mem_map.mpr ⟨(s, t), List.mem_filter.mpr ⟨?_, by simp⟩, rfl⟩
  rw [h.edges]
  exact List.mem_flatMap.mpr ⟨s, hs, List.mem_map_of_mem hst⟩

def unfollowed (reached : List Signature) (edges : List (Signature × Signature)) : Nat :=
  (edges.filter fun e => !reached.contains e.1).length

theorem length_targets_add_unfollowed (b : Below) (reached : List Signature) (hs : s ∉ reached) :
    (b.targets s).length + unfollowed (s :: reached) b.edges ≤ unfollowed reached b.edges := by
  rw [targets, List.length_map]
  unfold unfollowed
  induction b.edges with
  | nil => exact Nat.le_refl _
  | cons e edges ih =>
    by_cases he : e.1 = s
    · simp_all
      omega
    · by_cases hr : e.1 ∈ reached <;> simp_all
      omega

def closing (b : Below) : Search (List Signature) Signature where
  found := id
  take reached s pending := (s :: reached, b.targets s ++ pending)

theorem closureFrom_eq (fuel : Nat) (pending reached : List Signature) :
    b.closureFrom fuel pending reached = (runFor b.closing.round fuel (reached, pending)).1 := by
  induction fuel generalizing pending reached with
  | zero => rfl
  | succ fuel ih =>
    cases pending with
    | nil => rfl
    | cons s pending =>
      unfold closureFrom
      split
      · rename_i hs
        rw [runFor_of_round (Search.round_of_mem (List.contains_iff_mem.mp hs))]
        exact ih _ _
      · rename_i hs
        rw [runFor_of_round (Search.round_of_not_mem (mt List.contains_iff_mem.mpr hs))]
        exact ih _ _

theorem closing_follows (b : Below) :
    b.closing.Follows (fun s t => t ∈ b.targets s) (fun _ => True) (unfollowed · b.edges) := by
  intro reached s pending _ hs
  have hpending (t : Signature) : t ∈ (b.closing.take reached s pending).2 ↔
      t ∈ b.targets s ∨ t ∈ pending := List.mem_append
  refine ⟨trivial, fun t => List.mem_cons, ?_, fun t ht => ((hpending t).mp ht).symm,
    fun t ht => .inl ((hpending t).mpr ht.symm)⟩
  have hcount := length_targets_add_unfollowed b reached hs
  simp only [closing, List.length_append]
  omega

theorem closure_spec (b : Below) (s : Signature) :
    (b.closure s, []) ∈ StateTransition.eval b.closing.round ([], [s]) ∧
      ∀ t, t ∈ b.closure s ↔ Relation.ReflTransGen (fun s t => t ∈ b.targets s) s t := by
  have hfuel : unfollowed [] b.edges ≤ b.edges.length := List.length_filter_le _ _
  obtain ⟨reached, hrun, heval, -, hexplored⟩ := b.closing_follows.run (n := b.edges.length + 2)
    trivial (.init [s]) (by rw [List.length_singleton]; omega)
  have hclosure : b.closure s = reached := by rw [closure, closureFrom_eq, hrun]
  refine ⟨hclosure ▸ heval, fun t => ?_⟩
  have hmem : t ∈ reached ↔ _ := hexplored.mem_iff
  simpa [hclosure] using hmem

end Below

theorem mem_closure {nodes : List Signature} (ha : a ∈ (g.below nodes).vertices) :
    b ∈ (g.below nodes).closure a ↔ g.Reaches a b := by
  have hcopies := below_copies g nodes
  rw [(Below.closure_spec _ a).2 b]
  constructor
  · exact Relation.ReflTransGen.mono (fun s t ht => Below.mem_targets hcopies ht) a b
  · intro hab
    -- what is met on the way is copied, so its calls are there to follow
    suffices hmet : b ∈ (g.below nodes).vertices ∧ Relation.ReflTransGen _ a b from hmet.2
    induction hab with
    | refl => exact ⟨ha, .refl⟩
    | tail _ hbc ih =>
      exact ⟨below_closed ih.1 hbc, ih.2.tail (Below.mem_targets_of_calls hcopies ih.1 hbc)⟩

theorem lookup_map_self {vertices : List Signature} (f : Signature → List Signature)
    (ha : a ∈ vertices) : (vertices.map fun s => (s, f s)).lookup a = some (f a) := by
  induction vertices with
  | nil => cases ha
  | cons v vertices ih =>
    rw [List.map_cons, List.lookup_cons]
    by_cases hv : a = v
    · simp [hv]
    · rw [beq_eq_false_iff_ne.mpr hv]
      exact ih ((List.mem_cons.mp ha).resolve_left hv)

theorem lookup_reachability {nodes : List Signature} (ha : a ∈ (g.below nodes).vertices) :
    ∃ reached, (g.reachability nodes).lookup a = some reached ∧
      ∀ b, b ∈ reached ↔ g.Reaches a b :=
  ⟨(g.below nodes).closure a, lookup_map_self _ ha, fun _ => mem_closure ha⟩

def Leads (g : CallGraph Signature) (a b : Signature) : Prop :=
  g.Reaches a b ∧ ¬g.Reaches b a

theorem Leads.asymm (h : g.Leads a b) : ¬g.Leads b a :=
  fun h' => h.2 h'.1

instance (g : CallGraph Signature) (a b : Signature) : Decidable (g.Leads a b) :=
  decidable_of_iff (b ∈ g.reach a ∧ a ∉ g.reach b) (by simp only [mem_reach, Leads])

theorem compareReach_eq {nodes : List Signature} (ha : a ∈ (g.below nodes).vertices)
    (hb : b ∈ (g.below nodes).vertices) :
    Comparator.compareReach (g.reachability nodes) a b =
      if g.Leads a b then -1 else if g.Leads b a then 1 else 0 := by
  obtain ⟨fromA, hfromA, hA⟩ := lookup_reachability (g := g) ha
  obtain ⟨fromB, hfromB, hB⟩ := lookup_reachability (g := g) hb
  rw [Comparator.compareReach, hfromA, hfromB]
  by_cases hab : g.Reaches a b <;> by_cases hba : g.Reaches b a <;>
    simp [Leads, hA, hB, hab, hba]

end CallerFirst.CallGraph
