import CallerFirst.Proofs.Exploration
import Mathlib.Order.Lattice.Nat

/-!
# Traversals that append

Where nodes are only appended, the order of a traversal is that of a textbook.
`traverse_append_textbook`: depth first, that of the search by recursion, although the stack holds nodes
that are placed before their turn comes; breadth first from one root, that of the distance from it.
-/

namespace CallerFirst

open StateTransition

namespace CallGraph

variable {g : CallGraph Signature} {met met' vs ws : List Signature} {u v w root : Signature} {n : Nat}

/-- Depth-first search by recursion: visiting some nodes in turn, each with its callees right behind it,
when others were met before. Nodes are noted as they are met, and passed over when met again. -/
inductive DepthFirst (g : CallGraph Signature) :
    List Signature → List Signature → List Signature → Prop
  | done {met : List Signature} : DepthFirst g met [] met
  | skip {met vs met' : List Signature} {v : Signature} :
    v ∈ met → DepthFirst g met vs met' → DepthFirst g met (v :: vs) met'
  | visit {met below vs met' : List Signature} {v : Signature} :
    v ∉ met → DepthFirst g (met ++ [v]) (g.callees v) below → DepthFirst g below vs met' →
    DepthFirst g met (v :: vs) met'

theorem depthFirst_nil : g.DepthFirst met [] met' ↔ met' = met := by
  refine ⟨fun h => ?_, fun h => h ▸ .done⟩
  cases h
  rfl

theorem depthFirst_of_mem (hv : v ∈ met) :
    g.DepthFirst met (v :: vs) met' ↔ g.DepthFirst met vs met' := by
  refine ⟨fun h => ?_, .skip hv⟩
  cases h with
  | skip _ h => exact h
  | visit hnew => exact absurd hv hnew

theorem depthFirst_append :
    g.DepthFirst met (vs ++ ws) met' ↔
      ∃ between, g.DepthFirst met vs between ∧ g.DepthFirst between ws met' := by
  induction vs generalizing met with
  | nil => simp [depthFirst_nil]
  | cons v vs ih =>
    rw [List.cons_append]
    constructor
    · intro h
      cases h with
      | skip hv h =>
        obtain ⟨between, hvs, hws⟩ := ih.mp h
        exact ⟨between, .skip hv hvs, hws⟩
      | visit hv hbelow h =>
        obtain ⟨between, hvs, hws⟩ := ih.mp h
        exact ⟨between, .visit hv hbelow hvs, hws⟩
    · rintro ⟨between, h, hws⟩
      cases h with
      | skip hv hvs => exact .skip hv (ih.mpr ⟨between, hvs, hws⟩)
      | visit hv hbelow hvs => exact .visit hv hbelow (ih.mpr ⟨between, hvs, hws⟩)

theorem depthFirst_of_not_mem (hv : v ∉ met) :
    g.DepthFirst met (v :: vs) met' ↔ g.DepthFirst (met ++ [v]) (g.callees v ++ vs) met' := by
  rw [depthFirst_append]
  refine ⟨fun h => ?_, fun ⟨below, hbelow, h⟩ => .visit hv hbelow h⟩
  cases h with
  | skip hmet => exact absurd hmet hv
  | visit _ hbelow h => exact ⟨_, hbelow, h⟩

inductive ReachesIn (g : CallGraph Signature) (u : Signature) : Nat → Signature → Prop
  | refl : ReachesIn g u 0 u
  | tail {n : Nat} {v w : Signature} : ReachesIn g u n v → g.Calls v w → ReachesIn g u (n + 1) w

noncomputable def distance (g : CallGraph Signature) (u v : Signature) : Nat :=
  sInf {n | g.ReachesIn u n v}

theorem isLeast_distance (h : g.ReachesIn u n v) :
    IsLeast {n | g.ReachesIn u n v} (g.distance u v) :=
  ⟨Nat.sInf_mem (s := {n | g.ReachesIn u n v}) ⟨n, h⟩, fun _ h => Nat.sInf_le h⟩

theorem exists_reachesIn (h : g.Reaches u v) : ∃ n, g.ReachesIn u n v := by
  induction h with
  | refl => exact ⟨0, .refl⟩
  | tail _ hcall ih =>
    obtain ⟨n, h⟩ := ih
    exact ⟨n + 1, h.tail hcall⟩

/-- A breadth-first search on the way, with what is pending in two parts: nodes at the distance `level`
come first, and one call further there are callees of those found. -/
structure Levelled (g : CallGraph Signature) (root : Signature) (level : Nat)
    (found near far : List Signature) : Prop where
  reachNear : ∀ w ∈ near, g.ReachesIn root level w
  reachFar : ∀ w ∈ far, g.ReachesIn root (level + 1) w
  within : ∀ n < level, ∀ w, g.ReachesIn root n w → w ∈ found
  here : ∀ w, g.ReachesIn root level w → w ∈ found ∨ w ∈ near
  closed : ∀ u ∈ found, ∀ w, g.Calls u w → w ∈ found ∨ w ∈ near ∨ w ∈ far
  notBeyond : ∀ w ∈ found, g.distance root w ≤ level
  byDistance : found.Pairwise fun a b => g.distance root a ≤ g.distance root b

variable {level : Nat} {found near far : List Signature}

theorem Levelled.init (g : CallGraph Signature) (root : Signature) :
    g.Levelled root 0 [] [root] [] where
  reachNear w hw := List.mem_singleton.mp hw ▸ .refl
  reachFar := by simp
  within := by simp
  here w hw := by
    cases hw
    simp
  closed := by simp
  notBeyond := by simp
  byDistance := .nil

theorem Levelled.further (h : g.Levelled root level found [] far) :
    g.Levelled root (level + 1) found far [] where
  reachNear := h.reachFar
  reachFar := by simp
  within n hn w hw := by
    rcases Nat.lt_succ_iff_lt_or_eq.mp hn with hn | rfl
    · exact h.within n hn w hw
    · simpa using h.here w hw
  here w hw := by
    cases hw with
    | tail hu hcall => simpa using h.closed _ (by simpa using h.here _ hu) w hcall
  closed u hu w hcall := by simpa using h.closed u hu w hcall
  notBeyond w hw := Nat.le_succ_of_le (h.notBeyond w hw)
  byDistance := h.byDistance

theorem Levelled.exists_near (h : g.Levelled root level found near far)
    (hpending : v :: vs = near ++ far) :
    ∃ level near far, vs = near ++ far ∧ g.Levelled root level found (v :: near) far := by
  cases near with
  | nil =>
    -- all nodes of the level are found, and those one call further are next
    exact ⟨level + 1, vs, [], by simp, by simpa [hpending] using h.further⟩
  | cons u near =>
    obtain ⟨rfl, rfl⟩ := List.cons.inj hpending
    exact ⟨level, near, far, rfl, h⟩

theorem Levelled.skip (h : g.Levelled root level found (v :: near) far) (hv : v ∈ found) :
    g.Levelled root level found near far where
  reachNear w hw := h.reachNear w (.tail _ hw)
  reachFar := h.reachFar
  within := h.within
  here w hw := by
    rcases h.here w hw with hw | hw
    · exact .inl hw
    · rcases List.mem_cons.mp hw with rfl | hw
      · exact .inl hv
      · exact .inr hw
  closed u hu w hcall := by
    rcases h.closed u hu w hcall with hw | hw | hw
    · exact .inl hw
    · rcases List.mem_cons.mp hw with rfl | hw
      · exact .inl hv
      · exact .inr (.inl hw)
    · exact .inr (.inr hw)
  notBeyond := h.notBeyond
  byDistance := h.byDistance

theorem Levelled.distance_eq (h : g.Levelled root level found (v :: near) far) (hv : v ∉ found) :
    g.distance root v = level := by
  have hreach := h.reachNear v List.mem_cons_self
  obtain ⟨hdistance, hleast⟩ := isLeast_distance hreach
  exact le_antisymm (hleast hreach) (le_of_not_gt fun hlt => hv (h.within _ hlt v hdistance))

theorem Levelled.find (h : g.Levelled root level found (v :: near) far) (hv : v ∉ found) :
    g.Levelled root level (found ++ [v]) near (far ++ g.callees v) where
  reachNear w hw := h.reachNear w (.tail _ hw)
  reachFar w hw := by
    rcases List.mem_append.mp hw with hw | hw
    · exact h.reachFar w hw
    · exact (h.reachNear v List.mem_cons_self).tail hw
  within n hn w hw := List.mem_append_left _ (h.within n hn w hw)
  here w hw := by
    have := h.here w hw
    simp only [List.mem_append, List.mem_cons, List.not_mem_nil, or_false] at this ⊢
    tauto
  closed u hu w hcall := by
    simp only [List.mem_append, List.mem_singleton] at hu ⊢
    rcases hu with hu | rfl
    · have := h.closed u hu w hcall
      simp only [List.mem_cons] at this
      tauto
    · exact .inr (.inr (.inr hcall))
  notBeyond w hw := by
    rcases List.mem_append.mp hw with hw | hw
    · exact h.notBeyond w hw
    · exact List.mem_singleton.mp hw ▸ (h.distance_eq hv).le
  byDistance := by
    refine List.pairwise_append.mpr ⟨h.byDistance, List.pairwise_singleton .., fun a ha b hb => ?_⟩
    rw [List.mem_singleton.mp hb, h.distance_eq hv]
    exact h.notBeyond a ha

end CallGraph

namespace Arrangement

variable {g : CallGraph Signature} {a b c : Arrangement Signature} {roots pending vs : List Signature}
  {v root : Signature}

theorem insert_append (hv : v ∉ a.ordered) :
    a.insert .append v = { a with ordered := a.ordered ++ [v] } :=
  if_neg (mt contains_iff.mp hv)

/-- What a depth-first search has still to do is what the recursive one would do with its stack and
then with the roots behind. -/
theorem depthFirst_of_visited (hgraph : a.graph = g) (roots : List Signature)
    (h : (b, []) ∈ eval (visiting .append .depthFirst).round (a, pending)) :
    b.graph = g ∧ ∀ met', g.DepthFirst a.ordered (pending ++ roots) met' ↔
      g.DepthFirst b.ordered roots met' := by
  refine Search.eval_keeps (P := fun c pending => c.graph = g ∧
    ∀ met', g.DepthFirst a.ordered _ met' ↔ g.DepthFirst c.ordered (pending ++ roots) met')
    ?_ ?_ h ⟨hgraph, fun _ => .rfl⟩
  · rintro c v pending hv ⟨hgraph, h⟩
    exact ⟨hgraph, fun met' => (h met').trans (CallGraph.depthFirst_of_mem hv)⟩
  · rintro c v pending hv ⟨rfl, h⟩
    simp only [visiting, insert_append hv, List.append_assoc, true_and]
    exact fun met' => (h met').trans (CallGraph.depthFirst_of_not_mem hv)

theorem depthFirst_of_traversed (hgraph : a.graph = g) (h : Traverses .append .depthFirst a roots c)
    (met : List Signature) : g.DepthFirst a.ordered roots met ↔ met = c.ordered := by
  induction h with
  | done => exact CallGraph.depthFirst_nil
  | @root a b c root roots heval _ ih =>
    obtain ⟨hgraph, hvisited⟩ := depthFirst_of_visited hgraph roots heval
    exact (hvisited met).trans (ih hgraph)

theorem levelled_of_visited
    (h : (b, []) ∈ eval (visiting .append .breadthFirst).round ({ graph := g }, [root])) :
    ∃ level near far, [] = near ++ far ∧ g.Levelled root level b.ordered near far := by
  refine (Search.eval_keeps (P := fun c pending => c.graph = g ∧
    ∃ level near far, pending = near ++ far ∧ g.Levelled root level c.ordered near far)
    ?_ ?_ h ⟨rfl, 0, [root], [], rfl, .init g root⟩).2
  · rintro c v pending hv ⟨hgraph, level, near, far, hpending, h⟩
    obtain ⟨level, near, far, rfl, h⟩ := h.exists_near hpending
    exact ⟨hgraph, level, near, far, rfl, h.skip hv⟩
  · rintro c v pending hv ⟨rfl, level, near, far, hpending, h⟩
    obtain ⟨level, near, far, rfl, h⟩ := h.exists_near hpending
    simp only [visiting, insert_append hv, true_and]
    exact ⟨level, near, far ++ c.graph.callees v, by simp, h.find hv⟩

/-- The two traversals that only append come to their end: from any roots in the order of the recursive
depth-first search, and from one root with what it reaches, nearest first. -/
theorem traverse_append_textbook (g : CallGraph Signature) :
    (∀ roots,
      let a := traverse .append .depthFirst { graph := g } roots
      Traverses .append .depthFirst { graph := g } roots a ∧
        ∀ met, g.DepthFirst [] roots met ↔ met = a.ordered) ∧
    ∀ root,
      let a := traverse .append .breadthFirst { graph := g } [root]
      Traverses .append .breadthFirst { graph := g } [root] a ∧ a.ordered.Nodup ∧
        (∀ v, v ∈ a.ordered ↔ g.Reaches root v) ∧
        (∀ v ∈ a.ordered, IsLeast {n | g.ReachesIn root n v} (g.distance root v)) ∧
        a.ordered.Pairwise fun u v => g.distance root u ≤ g.distance root v := by
  refine ⟨fun roots => ?_, fun root => ?_⟩
  · have htraverses := ((Explored.init g).traverse .append .depthFirst roots).1
    exact ⟨htraverses, depthFirst_of_traversed rfl htraverses⟩
  · have htraverses := ((Explored.init g).traverse .append .breadthFirst [root]).1
    have hmem (v : Signature) : v ∈ (traverse .append .breadthFirst { graph := g } [root]).ordered ↔
        g.Reaches root v := mem_traverse.trans (by simp)
    refine ⟨htraverses, nodup_traverse .., hmem, fun v hv => ?_, ?_⟩
    · obtain ⟨n, hn⟩ := CallGraph.exists_reachesIn ((hmem v).mp hv)
      exact CallGraph.isLeast_distance hn
    · generalize traverse .append .breadthFirst { graph := g } [root] = a at htraverses ⊢
      cases htraverses with
      | root heval hdone =>
        cases hdone
        obtain ⟨level, near, far, -, hlevelled⟩ := levelled_of_visited heval
        exact hlevelled.byDistance

-- `c` is met below `b`, while it still waits on the stack as a callee of `a`
example :
    let a : Signature := ⟨"a()"⟩
    let b : Signature := ⟨"b()"⟩
    let c : Signature := ⟨"c()"⟩
    (traverse .append .depthFirst { graph := .ofEdges [(a, [b, c]), (b, [c])] } [a]).ordered =
      [a, b, c] := by
  decide

end Arrangement

end CallerFirst
