import CallerFirst.Proofs.CallGraph.Below

/-!
# The two ways to see what is reached

A search over the nodes of a graph and a closure over a numbered copy of what is below some nodes.
`reachability_agrees`: both come to their end with what a chain of calls leads to, the copy has a
vertex for everything reached and a number for every end of a call, and signatures are compared by the
strict part of what leads to what.
-/

namespace CallerFirst.CallGraph

variable {g : CallGraph Signature} {nodes : List Signature} {a b s t : Signature} {i j : Nat}

-- ---------------------------------------------------------------------------
-- The copy by numbers
-- ---------------------------------------------------------------------------

/-- A copy of what some nodes reach: one vertex for each signature, the calls between them, and these
calls again by the numbers of vertices that are there. -/
structure Below.Spans (g : CallGraph Signature) (nodes : List Signature) (b : Below) : Prop where
  nodup : b.vertices.Nodup
  mem_vertices : ∀ s, s ∈ b.vertices ↔ ∃ v ∈ nodes, g.Reaches v s
  edges : b.edges = g.edgesOf b.vertices
  ends : ∀ e ∈ b.edges, e.1 ∈ b.vertices ∧ e.2 ∈ b.vertices
  numbered : ∀ i j, (i, j) ∈ b.numbered ↔
    ∃ s t, b.vertices[i]? = some s ∧ b.vertices[j]? = some t ∧ g.Calls s t

theorem mem_edgesOf {vertices : List Signature} :
    (s, t) ∈ g.edgesOf vertices ↔ s ∈ vertices ∧ g.Calls s t := by
  simp [edgesOf, Calls]

theorem mem_edges_below :
    (s, t) ∈ (g.below nodes).edges ↔ s ∈ (g.below nodes).vertices ∧ g.Calls s t := by
  rw [(below_copies g nodes).edges, mem_edgesOf]

theorem mem_numbered_below : (i, j) ∈ (g.below nodes).numbered ↔
    ∃ s t, (g.below nodes).vertices[i]? = some s ∧ (g.below nodes).vertices[j]? = some t ∧
      g.Calls s t := by
  have hnodup := (below_copies g nodes).nodup
  constructor
  · intro h
    obtain ⟨⟨s, t⟩, hedge, hnumbers⟩ := List.mem_map.mp h
    obtain ⟨rfl, rfl⟩ := Prod.mk.inj hnumbers
    obtain ⟨hs, hcall⟩ := mem_edges_below.mp hedge
    exact ⟨s, t, List.getElem?_idxOf hs, List.getElem?_idxOf (below_closed hs hcall), hcall⟩
  · rintro ⟨s, t, hs, ht, hcall⟩
    obtain ⟨hi, rfl⟩ := List.getElem?_eq_some_iff.mp hs
    obtain ⟨hj, rfl⟩ := List.getElem?_eq_some_iff.mp ht
    refine List.mem_map.mpr ⟨_, mem_edges_below.mpr ⟨List.getElem_mem hi, hcall⟩, ?_⟩
    simp [hnodup.idxOf_getElem]

theorem spans_below (g : CallGraph Signature) (nodes : List Signature) :
    (g.below nodes).Spans g nodes where
  nodup := (below_copies g nodes).nodup
  mem_vertices _ := mem_vertices_below
  edges := (below_copies g nodes).edges
  ends := fun ⟨_, _⟩ he =>
    ⟨(mem_edges_below.mp he).1, below_closed (mem_edges_below.mp he).1 (mem_edges_below.mp he).2⟩
  numbered _ _ := mem_numbered_below

theorem reaches_numbered (hs : (g.below nodes).vertices[i]? = some s)
    (ht : (g.below nodes).vertices[j]? = some t) :
    Relation.ReflTransGen (fun i j => (i, j) ∈ (g.below nodes).numbered) i j ↔ g.Reaches s t := by
  have hnodup := (below_copies g nodes).nodup
  constructor
  · intro h
    induction h generalizing t with
    | refl =>
      obtain rfl := Option.some_inj.mp (hs.symm.trans ht)
      exact .refl
    | tail _ hlast ih =>
      obtain ⟨u, w, hu, hw, hcall⟩ := mem_numbered_below.mp hlast
      obtain rfl := Option.some_inj.mp (hw.symm.trans ht)
      exact (ih hu).tail hcall
  · intro h
    induction h generalizing j with
    | refl =>
      obtain ⟨hi, hsi⟩ := List.getElem?_eq_some_iff.mp hs
      obtain ⟨hj, hsj⟩ := List.getElem?_eq_some_iff.mp ht
      obtain rfl := (hnodup.getElem_inj_iff).mp (hsi.trans hsj.symm)
      exact .refl
    | @tail u t hsu hcall ih =>
      have hu : u ∈ (g.below nodes).vertices := by
        obtain ⟨v, hv, hvs⟩ := mem_vertices_below.mp (List.mem_of_getElem? hs)
        exact mem_vertices_below.mpr ⟨v, hv, hvs.trans hsu⟩
      exact (ih (List.getElem?_idxOf hu)).tail
        (mem_numbered_below.mpr ⟨u, t, List.getElem?_idxOf hu, ht, hcall⟩)

-- ---------------------------------------------------------------------------
-- The comparison
-- ---------------------------------------------------------------------------

/-- A three-way comparison by a relation that holds of no pair both ways. -/
structure StrictPart (before : Signature → Signature → Prop)
    (compare : Signature → Signature → Int) : Prop where
  neg : ∀ a b, compare a b < 0 ↔ before a b
  irrefl : ∀ a, compare a a = 0
  antisymm : ∀ a b, compare b a = -compare a b
  trans : ∀ a b c, compare a b < 0 → compare b c < 0 → compare a c < 0

theorem StrictPart.of_eq {before : Signature → Signature → Prop} [DecidableRel before]
    {compare : Signature → Signature → Int}
    (hcompare : ∀ a b, compare a b = if before a b then -1 else if before b a then 1 else 0)
    (hasymm : ∀ a b, before a b → ¬before b a)
    (htrans : ∀ a b c, before a b → before b c → before a c) : StrictPart before compare := by
  have hneg (a b : Signature) : compare a b < 0 ↔ before a b := by
    rw [hcompare]
    split_ifs <;> simp_all
  refine ⟨hneg, fun a => ?_, fun a b => ?_, fun a b c => ?_⟩
  · have hself : ¬before a a := fun h => hasymm a a h h
    simp [hcompare, hself]
  · have := hasymm a b
    rw [hcompare, hcompare]
    split_ifs <;> simp_all
  · simp only [hneg]
    exact htrans a b c

def LeadsBelow (g : CallGraph Signature) (nodes : List Signature) (a b : Signature) : Prop :=
  a ∈ (g.below nodes).vertices ∧ b ∈ (g.below nodes).vertices ∧ g.Leads a b

instance (g : CallGraph Signature) (nodes : List Signature) : DecidableRel (g.LeadsBelow nodes) :=
  fun a b => inferInstanceAs
    (Decidable (a ∈ (g.below nodes).vertices ∧ b ∈ (g.below nodes).vertices ∧ g.Leads a b))

theorem lookup_reachability_of_not_mem (h : s ∉ (g.below nodes).vertices) :
    (g.reachability nodes).lookup s = none := by
  refine List.lookup_eq_none_iff.mpr ?_
  rintro ⟨v, reached⟩ hv
  obtain ⟨w, hw, heq⟩ := List.mem_map.mp hv
  obtain ⟨rfl, -⟩ := Prod.mk.inj heq
  simpa using fun hs : s = w => h (hs ▸ hw)

theorem compareReach_eq_zero (h : ¬(a ∈ (g.below nodes).vertices ∧ b ∈ (g.below nodes).vertices)) :
    Comparator.compareReach (g.reachability nodes) a b = 0 := by
  unfold Comparator.compareReach
  rcases not_and_or.mp h with h | h
  · rw [lookup_reachability_of_not_mem h]
  · rw [lookup_reachability_of_not_mem h]
    cases (g.reachability nodes).lookup a <;> rfl

theorem strictPart_reachability (g : CallGraph Signature) (nodes : List Signature) :
    StrictPart (g.LeadsBelow nodes)
      (Comparator.compare (.reachability (g.reachability nodes))) := by
  refine .of_eq (fun a b => ?_) (fun a b hab hba => hab.2.2.asymm hba.2.2) ?_
  · rw [Comparator.compare]
    by_cases h : a ∈ (g.below nodes).vertices ∧ b ∈ (g.below nodes).vertices
    · simp [compareReach_eq h.1 h.2, LeadsBelow, h]
    · have hab : ¬g.LeadsBelow nodes a b := fun hab => h ⟨hab.1, hab.2.1⟩
      have hba : ¬g.LeadsBelow nodes b a := fun hba => h ⟨hba.2.1, hba.1⟩
      simp [compareReach_eq_zero h, hab, hba]
  · rintro a b c ⟨ha, -, hab, hba⟩ ⟨-, hc, hbc, -⟩
    exact ⟨ha, hc, hab.trans hbc, fun hca => hba (hbc.trans hca)⟩

-- ---------------------------------------------------------------------------
-- Both together
-- ---------------------------------------------------------------------------

/-- What the closure of the copy holds for a signature: nothing if it is not there, else what a search
of the graph meets, which is what can be reached over the numbered calls. -/
structure Tabled (g : CallGraph Signature) (nodes : List Signature)
    (table : List (Signature × List Signature)) : Prop where
  absent : ∀ s, s ∉ (g.below nodes).vertices → table.lookup s = none
  present : ∀ s ∈ (g.below nodes).vertices, ∃ reached, table.lookup s = some reached ∧
    (∀ t, t ∈ reached ↔ t ∈ g.reach s) ∧
    ∀ t, t ∈ reached ↔ ∃ i j, (g.below nodes).vertices[i]? = some s ∧
      (g.below nodes).vertices[j]? = some t ∧
      Relation.ReflTransGen (fun i j => (i, j) ∈ (g.below nodes).numbered) i j

theorem tabled_reachability (g : CallGraph Signature) (nodes : List Signature) :
    Tabled g nodes (g.reachability nodes) := by
  refine ⟨fun s => lookup_reachability_of_not_mem, fun s hs => ?_⟩
  obtain ⟨reached, hlookup, hreached⟩ := lookup_reachability hs
  refine ⟨reached, hlookup, fun t => (hreached t).trans mem_reach.symm, fun t => ?_⟩
  rw [hreached]
  constructor
  · intro h
    obtain ⟨v, hv, hvs⟩ := mem_vertices_below.mp hs
    have ht : t ∈ (g.below nodes).vertices := mem_vertices_below.mpr ⟨v, hv, hvs.trans h⟩
    exact ⟨_, _, List.getElem?_idxOf hs, List.getElem?_idxOf ht,
      (reaches_numbered (List.getElem?_idxOf hs) (List.getElem?_idxOf ht)).mpr h⟩
  · rintro ⟨i, j, hi, hj, h⟩
    exact (reaches_numbered hi hj).mp h

theorem reachability_agrees (g : CallGraph Signature) (nodes : List Signature) :
    (∀ v, (g.reach v, []) ∈ StateTransition.eval g.reaching.round ([], [v]) ∧
      ∀ s, s ∈ g.reach v ↔ g.Reaches v s) ∧
    (g.below nodes, []) ∈ StateTransition.eval g.copying.round ({}, nodes) ∧
    (g.below nodes).Spans g nodes ∧ Tabled g nodes (g.reachability nodes) ∧
    StrictPart (g.LeadsBelow nodes)
      (Comparator.compare (.reachability (g.reachability nodes))) :=
  ⟨g.reach_spec, (g.below_spec nodes).1, spans_below g nodes, tabled_reachability g nodes,
    strictPart_reachability g nodes⟩

end CallerFirst.CallGraph
