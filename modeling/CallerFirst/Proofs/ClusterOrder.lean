import CallerFirst.Proofs.Clusters
import CallerFirst.Proofs.DeclaredMethods
import CallerFirst.Proofs.RankTable
import CallerFirst.Proofs.WeakOrder

/-!
# Clusters stay together

Clusters compare by their main signatures, and members of one cluster by their places in it. Where the
stack of the priorities is an order without ties on the main signatures, sorting lists the clusters one
after the other (`orderedSignatures_contiguous`). Within a cluster, callers stand in front of what they
call if the calls between its members have no cycle, whatever calls were dropped before
(`cluster_stepdown`).
-/

namespace CallerFirst

-- ---------------------------------------------------------------------------
-- Orders without ties
-- ---------------------------------------------------------------------------

structure Comparator.Strict (c : Comparator) (xs : List Signature) : Prop where
  weak : ∃ weak, Weak weak ∧ ∀ a ∈ xs, ∀ b ∈ xs, c.compare a b = weak a b
  decides : ∀ a ∈ xs, ∀ b ∈ xs, c.compare a b = 0 → a = b

theorem Comparator.Strict.mono {c : Comparator} (h : c.Strict xs) (hys : ∀ s ∈ ys, s ∈ xs) :
    c.Strict ys := by
  obtain ⟨⟨weak, hweak, heq⟩, hdecides⟩ := h
  exact ⟨⟨weak, hweak, fun a ha b hb => heq a (hys a ha) b (hys b hb)⟩,
    fun a ha b hb => hdecides a (hys a ha) b (hys b hb)⟩

theorem Comparator.Strict.sortBy_pairwise {c : Comparator} {f : α → Signature} {xs : List α}
    (hstrict : c.Strict (xs.map f)) (hnodup : (xs.map f).Nodup) :
    (Sorting.sortBy (fun x y => c.compare (f x) (f y)) xs).Pairwise fun x y =>
      c.compare (f x) (f y) < 0 ∧ 0 < c.compare (f y) (f x) := by
  obtain ⟨⟨weak, hweak, heq⟩, hdecides⟩ := hstrict
  have hmap {x : α} (hx : x ∈ xs) : f x ∈ xs.map f := List.mem_map_of_mem hx
  have hperm := Sorting.sortBy_perm (fun x y => c.compare (f x) (f y)) xs
  have hconsistent : Sorting.Consistent (fun x y => decide (c.compare (f x) (f y) < 0)) xs :=
    ((hweak.comap f).consistent xs).congr fun x hx y hy => by rw [heq _ (hmap hx) _ (hmap hy)]
  have hnodup' : (Sorting.sortBy (fun x y => c.compare (f x) (f y)) xs).Pairwise fun x y => f x ≠ f y :=
    List.pairwise_map.mp ((hperm.map f).nodup_iff.mpr hnodup)
  refine ((Sorting.sort_pairwise hconsistent).and hnodup').imp_of_mem fun {x y} hx hy hxy => ?_
  replace hx := hmap (hperm.mem_iff.mp hx)
  replace hy := hmap (hperm.mem_iff.mp hy)
  have hle : ¬weak (f y) (f x) < 0 := heq _ hy _ hx ▸ of_decide_eq_false hxy.1
  have hne : weak (f x) (f y) ≠ 0 := fun h => hxy.2 (hdecides _ hx _ hy ((heq _ hx _ hy).trans h))
  have hflip := hweak.flip (f y) (f x)
  have hflip' := hweak.flip (f x) (f y)
  rw [heq _ hx _ hy, heq _ hy _ hx]
  omega

def Comparator.Follows (c : Comparator) (ordered : List Signature) : Prop :=
  ordered.Pairwise fun a b => c.compare a b < 0 ∧ 0 < c.compare b a

namespace Comparator.Follows

variable {c : Comparator} {ordered xs : List Signature}

theorem strict (h : c.Follows ordered) :
    ordered.Pairwise fun a b =>
      decide (c.compare a b < 0) = true ∧ decide (c.compare b a < 0) = false :=
  h.imp fun hab => ⟨decide_eq_true hab.1, decide_eq_false (by omega)⟩

theorem sort_eq (h : c.Follows ordered) (hperm : xs.Perm ordered) : c.sort xs = ordered :=
  Sorting.sort_eq_of_strict hperm (fun a _ => by simp [compare_self]) h.strict

end Comparator.Follows

namespace CallGraph

variable {g : CallGraph Signature} {p : Preferences} {unit : Node} {nodes xs : List Signature}

theorem exists_criterion (h : priority ∈ priorities) :
    ∃ g', (criterion p unit nodes g' priority).1 ∈ (criteria p unit nodes g priorities).1 := by
  induction priorities generalizing g with
  | nil => cases h
  | cons first rest ih =>
    rcases List.mem_cons.mp h with rfl | h
    · exact ⟨g, .head _⟩
    · obtain ⟨g', hg'⟩ := ih (g := (criterion p unit nodes g first).2) h
      exact ⟨g', .tail _ hg'⟩

theorem compare_methodStack_of_mem (hxs : ∀ s ∈ xs, s ∈ nodes) (ha : a ∈ xs) (hb : b ∈ xs) :
    (g.methodStack p unit nodes).1.compare a b =
      Comparator.firstVerdict (g.criteria p unit nodes p.priorities).1 a b := by
  rw [methodStack, Comparator.compare, if_pos (by simp [hxs a ha, hxs b hb])]

/-- Places in an arrangement, places in the source and names leave no two methods open. -/
theorem methodStack_strict (hxs : ∀ s ∈ xs, s ∈ nodes)
    (hdeclared : ∀ s ∈ xs, s ∈ (Declared.ofUnit unit).methods.map .ofMethod)
    (hreach : .reachability ∉ p.priorities)
    (hdecides : .invocation ∈ p.priorities ∨ .sourcePosition ∈ p.priorities ∨
      .lexical ∈ p.priorities) :
    (g.methodStack p unit nodes).1.Strict xs := by
  refine ⟨?_, fun a ha b hb hab => ?_⟩
  · obtain ⟨weak, hweak, heq⟩ := exists_weak_criteria p unit nodes g p.priorities
    refine ⟨weak, hweak, fun a ha b hb => ?_⟩
    rw [compare_methodStack_of_mem hxs ha hb]
    exact heq a (hxs a ha) b (hxs b hb) fun h => absurd h hreach
  · rw [compare_methodStack_of_mem hxs ha hb, Comparator.firstVerdict_eq_zero] at hab
    rcases hdecides with h | h | h
    · obtain ⟨g', hlayer⟩ := exists_criterion h
      have hroot {s : Signature} (hs : s ∈ xs) :=
        Arrangement.mem_traverse_root (p := p.placement) (s := p.strategy) (g := g')
          (hxs s hs)
      have hnodup := Arrangement.nodup_traverse p.placement p.strategy g' nodes
      have hplace := RankTable.compare_ofArrangement hnodup (hroot ha) (hroot hb)
      exact (RankTable.byPlace_eq_zero (hroot ha)).mp (hplace.symm.trans (hab _ hlayer))
    · obtain ⟨g', hlayer⟩ := exists_criterion h
      exact RankTable.compare_ofMethods_eq_zero (hdeclared a ha) (hdeclared b hb) (hab _ hlayer)
    · obtain ⟨g', hlayer⟩ := exists_criterion h
      have hkeys : byKey Signature.key a b = 0 := hab _ hlayer
      exact congrArg Signature.mk (byKey_eq_zero.mp hkeys)

theorem methodStack_strict_of_head (hfirst : p.priorities.head? = some .invocation)
    (hxs : ∀ s ∈ xs, s ∈ g.ids) : (g.methodStack p unit (g.workingList p unit)).1.Strict xs where
  weak := by
    refine ⟨RankTable.byPlace (g.arranged p unit), .byKey (g.arranged p unit).idxOf, ?_⟩
    exact fun a ha b hb => compare_methodStack hfirst (hxs a ha) (hxs b hb)
  decides a ha b hb hab := by
    rw [compare_methodStack hfirst (hxs a ha) (hxs b hb)] at hab
    exact (RankTable.byPlace_eq_zero (mem_arranged (hxs a ha))).mp hab

end CallGraph

-- ---------------------------------------------------------------------------
-- Two levels
-- ---------------------------------------------------------------------------

namespace Cluster

variable {clusters : List (Cluster Signature)} {c d : Cluster Signature} {outer : Comparator}
  {a b : Signature}

theorem ranks_eq (c : Cluster Signature) : c.ranks = ⟨c.main, .ofArrangement c.signatures⟩ := rfl

theorem contains_ranks : c.ranks.ranks.contains a = true ↔ a ∈ c.signatures := by
  rw [ranks_eq, RankTable.contains, ← Entries.isSome_lookup]
  constructor
  · intro h
    obtain ⟨r, hr⟩ := Option.isSome_iff_exists.mp h
    obtain ⟨i, hi, heq⟩ := List.mem_mapIdx.mp (RankTable.mem_of_get?_ofList hr)
    obtain ⟨rfl, -⟩ := Prod.mk.inj heq
    exact List.getElem_mem hi
  · intro h
    refine Option.isSome_iff_exists.mpr (RankTable.exists_get?_ofList ?_ false)
    obtain ⟨i, hi, rfl⟩ := List.mem_iff_getElem.mp h
    exact List.mem_map.mpr ⟨_, List.mem_mapIdx.mpr ⟨i, hi, rfl⟩, rfl⟩

theorem index_unique {i j : Nat} (hnodup : (clusters.flatMap signatures).Nodup)
    (hi : clusters[i]? = some c) (hj : clusters[j]? = some d) (ha : a ∈ c.signatures)
    (ha' : a ∈ d.signatures) : i = j := by
  have hdisjoint := List.pairwise_iff_getElem.mp (List.nodup_flatMap.mp hnodup).2
  obtain ⟨hilt, rfl⟩ := List.getElem?_eq_some_iff.mp hi
  obtain ⟨hjlt, rfl⟩ := List.getElem?_eq_some_iff.mp hj
  rcases Nat.lt_trichotomy i j with h | h | h
  · exact absurd ha' (hdisjoint i j hilt hjlt h ha)
  · exact h
  · exact absurd ha (hdisjoint j i hjlt hilt h ha')

theorem clusterOf?_eq (hnodup : (clusters.flatMap signatures).Nodup) (hi : clusters[i]? = some c)
    (ha : a ∈ c.signatures) :
    Comparator.clusterOf? (clusters.map ranks) a = some (i, c.ranks) := by
  have hmem (x : Nat × ClusterRanks) :
      x ∈ ((clusters.map ranks).mapIdx fun i c => (i, c)).filter (·.2.ranks.contains a) ↔
        x = (i, c.ranks) := by
    rw [List.mem_filter, List.mem_mapIdx]
    constructor
    · rintro ⟨⟨j, hj, rfl⟩, hcontains⟩
      rw [List.getElem_map] at hcontains ⊢
      have hd := List.getElem?_eq_getElem (l := clusters) (by simpa using hj)
      obtain rfl := index_unique hnodup hi hd ha (contains_ranks.mp hcontains)
      rw [Option.some.inj (hi.symm.trans hd)]
    · rintro rfl
      obtain ⟨hlt, rfl⟩ := List.getElem?_eq_some_iff.mp hi
      exact ⟨⟨i, by simpa using hlt, by simp⟩, contains_ranks.mpr ha⟩
  unfold Comparator.clusterOf?
  cases hlast : List.getLast? _ with
  | none =>
    rw [List.getLast?_eq_none_iff] at hlast
    simpa [hlast] using (hmem (i, c.ranks)).mpr rfl
  | some x => rw [(hmem x).mp (List.mem_of_getLast? hlast)]

theorem compare_within (hnodup : (clusters.flatMap signatures).Nodup) (hc : c ∈ clusters)
    (ha : a ∈ c.signatures) (hb : b ∈ c.signatures) :
    (Comparator.clustered outer (clusters.map ranks)).compare a b =
      RankTable.byPlace c.signatures a b := by
  obtain ⟨i, hi⟩ := List.mem_iff_getElem?.mp hc
  rw [Comparator.compare, clusterOf?_eq hnodup hi ha, clusterOf?_eq hnodup hi hb]
  simp only [↓reduceIte, ranks_eq]
  exact RankTable.compare_ofArrangement ((List.nodup_flatMap.mp hnodup).1 c hc) ha hb

theorem compare_across (hnodup : (clusters.flatMap signatures).Nodup) (hc : c ∈ clusters)
    (hd : d ∈ clusters) (hne : c.main ≠ d.main) (ha : a ∈ c.signatures) (hb : b ∈ d.signatures) :
    (Comparator.clustered outer (clusters.map ranks)).compare a b = outer.compare c.main d.main := by
  obtain ⟨i, hi⟩ := List.mem_iff_getElem?.mp hc
  obtain ⟨j, hj⟩ := List.mem_iff_getElem?.mp hd
  have hij : i ≠ j := by
    rintro rfl
    exact hne (congrArg main (Option.some.inj (hi.symm.trans hj)))
  rw [Comparator.compare, clusterOf?_eq hnodup hi ha, clusterOf?_eq hnodup hj hb]
  simp only [hij, ↓reduceIte, ranks_eq]

def inOrder (outer : Comparator) (clusters : List (Cluster Signature)) : List (Cluster Signature) :=
  Sorting.sortBy (fun c d => outer.compare c.main d.main) clusters

theorem inOrder_perm : (inOrder outer clusters).Perm clusters :=
  Sorting.sortBy_perm _ _

theorem inOrder_pairwise (hstrict : outer.Strict (clusters.map main))
    (hnodup : (clusters.map main).Nodup) :
    (inOrder outer clusters).Pairwise fun c d =>
      outer.compare c.main d.main < 0 ∧ 0 < outer.compare d.main c.main :=
  hstrict.sortBy_pairwise hnodup

theorem nodup_mains (hnodup : (clusters.flatMap signatures).Nodup)
    (hmain : ∀ c ∈ clusters, c.main ∈ c.signatures) : (clusters.map main).Nodup := by
  refine List.pairwise_map.mpr (((List.nodup_flatMap.mp hnodup).2).imp_of_mem ?_)
  intro c d hc hd hdisjoint heq
  exact hdisjoint (hmain c hc) (heq ▸ hmain d hd)

theorem clustered_follows (hnodup : (clusters.flatMap signatures).Nodup)
    (hmain : ∀ c ∈ clusters, c.main ∈ c.signatures) (hstrict : outer.Strict (clusters.map main)) :
    (Comparator.clustered outer (clusters.map ranks)).Follows
      ((inOrder outer clusters).flatMap signatures) := by
  have horder := inOrder_pairwise hstrict (nodup_mains hnodup hmain)
  have hmem {c : Cluster Signature} (hc : c ∈ inOrder outer clusters) : c ∈ clusters :=
    inOrder_perm.mem_iff.mp hc
  refine List.pairwise_flatMap.mpr ⟨?_, ?_⟩
  · intro c hc
    have hcnodup := (List.nodup_flatMap.mp hnodup).1 c (hmem hc)
    refine (Sorting.pairwise_idxOf hcnodup).imp_of_mem fun {a b} ha hb hlt => ⟨?_, ?_⟩
    · rw [compare_within hnodup (hmem hc) ha hb]
      exact RankTable.byPlace_neg.mpr hlt
    · rw [compare_within hnodup (hmem hc) hb ha]
      simp [RankTable.byPlace, hlt, hlt.not_gt]
  · refine horder.imp_of_mem fun {c d} hc hd hcd a ha b hb => ?_
    have hne : c.main ≠ d.main := by
      intro heq
      rw [heq, Comparator.compare_self] at hcd
      exact absurd hcd.1 (by decide)
    rw [compare_across hnodup (hmem hc) (hmem hd) hne ha hb,
      compare_across hnodup (hmem hd) (hmem hc) hne.symm hb ha]
    exact hcd

theorem sort_clustered (hnodup : (clusters.flatMap signatures).Nodup)
    (hmain : ∀ c ∈ clusters, c.main ∈ c.signatures) (hstrict : outer.Strict (clusters.map main))
    {xs : List Signature} (hperm : xs.Perm (clusters.flatMap signatures)) :
    (Comparator.clustered outer (clusters.map ranks)).sort xs =
      (inOrder outer clusters).flatMap signatures :=
  (clustered_follows hnodup hmain hstrict).sort_eq
    (hperm.trans (inOrder_perm.symm.flatMap_right _))

end Cluster

-- ---------------------------------------------------------------------------
-- Units
-- ---------------------------------------------------------------------------

open Node

namespace MethodComparison

variable {p : Preferences} {unit : Node} {g : CallGraph Signature}

theorem comparator_clustered (hc : p.isClustering = true) :
    (ofPreferences p unit g).comparator =
      .clustered (g.methodStack p unit (g.workingList p unit)).1
        ((ofPreferences p unit g).clusters.map Cluster.ranks) := by
  simp [ofPreferences, hc]

theorem clusters_eq (hc : p.isClustering = true) :
    (ofPreferences p unit g).clusters =
      (Cluster.ofUnit ⟨p.clusterGetterSetter, p.clusterOverloaded⟩
        (g.methodStack p unit (g.workingList p unit)).2 (g.workingList p unit) unit).map
        (·.sortMembers p unit (g.methodStack p unit (g.workingList p unit)).2) := by
  simp [ofPreferences, hc]

end MethodComparison

namespace Sorter

variable {p : Preferences} {unit : Node}

def outerStack (p : Preferences) (unit : Node) : Comparator :=
  ((CallGraph.ofUnit unit).methodStack p unit ((CallGraph.ofUnit unit).workingList p unit)).1

/-- What the priorities leave of the calls of a unit. -/
def graphBehind (p : Preferences) (unit : Node) : CallGraph Signature :=
  ((CallGraph.ofUnit unit).methodStack p unit ((CallGraph.ofUnit unit).workingList p unit)).2

def clustersOf (p : Preferences) (unit : Node) : List (Cluster Signature) :=
  (MethodComparison.ofPreferences p unit (CallGraph.ofUnit unit)).clusters

theorem comparator_orderOf (hc : p.isClustering = true) :
    (orderOf p unit).comparator =
      .clustered (outerStack p unit) ((clustersOf p unit).map Cluster.ranks) :=
  MethodComparison.comparator_clustered hc

theorem partitions_clustersOf (h : IsBound key body unit) (hc : p.isClustering = true) :
    Cluster.Partitions ⟨p.clusterGetterSetter, p.clusterOverloaded⟩
      ((CallGraph.ofUnit unit).workingList p unit) body (clustersOf p unit) := by
  rw [clustersOf, MethodComparison.clusters_eq hc]
  exact Cluster.partitions_sorted h p

theorem mem_clustersOf (h : IsBound key body unit) (hc : p.isClustering = true) {s : Signature} :
    s ∈ (clustersOf p unit).flatMap Cluster.signatures ↔ s ∈ body.filterMap signature? := by
  refine (partitions_clustersOf h hc).mem_iff.trans ⟨And.left, fun hs => ⟨hs, ?_⟩⟩
  exact CallGraph.mem_workingList.mpr (CallGraph.mem_ids_of_signature? h.unit hs)

theorem mains_clustersOf (h : IsBound key body unit) (hc : p.isClustering = true) :
    ∀ s ∈ (clustersOf p unit).map Cluster.main, s ∈ body.filterMap signature? := by
  intro s hs
  obtain ⟨c, hmem, rfl⟩ := List.mem_map.mp hs
  have hpartitions := partitions_clustersOf h hc
  exact hpartitions.declared hmem (hpartitions.main_mem c hmem)

theorem orderedSignatures_eq (h : IsBound key body unit) (hc : p.isClustering = true)
    (hstrict : (outerStack p unit).Strict (body.filterMap signature?)) :
    (orderOf p unit).orderedSignatures =
      (Cluster.inOrder (outerStack p unit) (clustersOf p unit)).flatMap Cluster.signatures := by
  have hpartitions := partitions_clustersOf h hc
  rw [MemberOrder.orderedSignatures, comparator_orderOf hc]
  refine Cluster.sort_clustered hpartitions.nodup hpartitions.main_mem
    (hstrict.mono (mains_clustersOf h hc)) ((Sorting.sort_perm _ _).trans ?_)
  rw [List.perm_ext_iff_of_nodup (MemberOrder.nodup_eraseDups _) hpartitions.nodup]
  intro s
  rw [mem_clustersOf h hc, ← CallGraph.mem_ids_ofUnit_iff h, List.mem_eraseDups, List.mem_filter,
    Bool.not_eq_true']
  rfl

theorem outerStack_strict (h : IsBound key body unit) (hreach : .reachability ∉ p.priorities)
    (hdecides : .invocation ∈ p.priorities ∨ .sourcePosition ∈ p.priorities ∨
      .lexical ∈ p.priorities) : (outerStack p unit).Strict (body.filterMap signature?) := by
  refine CallGraph.methodStack_strict (fun s hs => ?_) (fun s hs => ?_) hreach hdecides
  · exact CallGraph.mem_workingList.mpr (CallGraph.mem_ids_of_signature? h.unit hs)
  · rwa [(Declared.ofUnit_eq h.unit).1, map_ofMethod_headers]

/-- The clusters are listed whole, one after the other, in order of their main signatures. -/
theorem orderedSignatures_contiguous (hread : Java.readUnit text = .ok unit)
    (hclustering : p.isClustering = true) (hreach : .reachability ∉ p.priorities)
    (hdecides : .invocation ∈ p.priorities ∨ .sourcePosition ∈ p.priorities ∨
      .lexical ∈ p.priorities) :
    ∃ ordered : List (Cluster Signature), ordered.Perm (clustersOf p unit) ∧
      ordered.Pairwise (fun c d => (outerStack p unit).compare c.main d.main < 0) ∧
      (orderOf p unit).orderedSignatures = ordered.flatMap Cluster.signatures := by
  obtain ⟨key, body, hbound⟩ := Java.readUnit_isBound hread
  have hstrict := outerStack_strict hbound hreach hdecides
  have hpartitions := partitions_clustersOf hbound hclustering
  have hmains := hstrict.mono (mains_clustersOf hbound hclustering)
  have hnodup := Cluster.nodup_mains hpartitions.nodup hpartitions.main_mem
  exact ⟨Cluster.inOrder (outerStack p unit) (clustersOf p unit), Cluster.inOrder_perm,
    (Cluster.inOrder_pairwise hmains hnodup).imp And.left,
    orderedSignatures_eq hbound hclustering hstrict⟩

def scattered : String :=
  "class A\x7bprivate int getX(){return 0;}void f(){}public void a(){f(1);}" ++
    "void setX(int i){f();}public void f(int i){setX(i);}\x7d"

def bothRules : Preferences :=
  { priorities := [.accessLevel, .lexical], clusterGetterSetter := true, clusterOverloaded := true }

theorem orderedSignatures_contiguous_scattered :
    ∃ unit, Java.readUnit scattered = .ok unit ∧
      (∃ ordered : List (Cluster Signature), ordered.Perm (clustersOf bothRules unit) ∧
        ordered.Pairwise (fun c d => (outerStack bothRules unit).compare c.main d.main < 0) ∧
        (orderOf bothRules unit).orderedSignatures = ordered.flatMap Cluster.signatures) ∧
      (orderOf bothRules unit).orderedSignatures =
        [⟨"a()"⟩, ⟨"f(int)"⟩, ⟨"f()"⟩, ⟨"setX(int)"⟩, ⟨"getX()"⟩] := by
  obtain ⟨unit, top, body, hread, -, -, hordered⟩ :=
    Java.exists_of_readBody? scattered (fun unit _ =>
      (orderOf bothRules unit).orderedSignatures =
        [⟨"a()"⟩, ⟨"f(int)"⟩, ⟨"f()"⟩, ⟨"setX(int)"⟩, ⟨"getX()"⟩]) (by decide +kernel)
  exact ⟨unit, hread, orderedSignatures_contiguous hread rfl (by decide) (by decide), hordered⟩

end Sorter

-- ---------------------------------------------------------------------------
-- Calls inside a cluster
-- ---------------------------------------------------------------------------

namespace CallGraph

variable {g sub : CallGraph Signature} {methods : List Signature} {members : List Node}

def CallsWithin (g : CallGraph Signature) (methods : List Signature) (a b : Signature) : Prop :=
  a ∈ methods ∧ b ∈ methods ∧ g.Calls a b

/-- No cycle of calls between these methods but of one that calls itself. -/
def AcyclicWithin (g : CallGraph Signature) (methods : List Signature) : Prop :=
  ∀ a b, Relation.ReflTransGen (g.CallsWithin methods) a b →
    Relation.ReflTransGen (g.CallsWithin methods) b a → a = b

/-- Each of the methods stands in front of the others of them that it calls. -/
structure InCallOrder (g : CallGraph Signature) (methods listed : List Signature) : Prop where
  nodup : listed.Nodup
  before : ∀ a ∈ methods, ∀ b ∈ methods, a ≠ b → g.Calls a b → [a, b].Sublist listed

theorem acyclicWithin_congr {xs ys : List Signature} (h : ∀ s, s ∈ xs ↔ s ∈ ys) :
    g.AcyclicWithin xs ↔ g.AcyclicWithin ys := by
  have hcalls : g.CallsWithin xs = g.CallsWithin ys := by
    funext a b
    simp only [CallsWithin, h]
  rw [AcyclicWithin, AcyclicWithin, hcalls]

theorem InCallOrder.mono {xs ys : List Signature} (h : g.InCallOrder ys listed)
    (hsub : ∀ s ∈ xs, s ∈ ys) : g.InCallOrder xs listed :=
  ⟨h.nodup, fun a ha b hb => h.before a (hsub a ha) b (hsub b hb)⟩

theorem Induced.calls_eq (h : Induced methods members g sub)
    (hdeclared : ∀ s ∈ methods, s ∈ members.filterMap signature?) :
    sub.Calls = g.CallsWithin methods := by
  funext a b
  have hcallees (ha : a ∈ sub.ids) : sub.Calls a b ↔ g.Calls a b ∧ b ∈ methods := by
    rw [Calls, h.callees_eq a ha, List.mem_filter, List.contains_iff_mem]
    rfl
  refine propext (Iff.intro ?_ ?_)
  · intro hab
    have ha := (h.mem_ids_of_calls a b hab).1
    obtain ⟨hcalls, hb⟩ := (hcallees ha).mp hab
    exact ⟨((h.mem_ids_iff a).mp ha).1, hb, hcalls⟩
  · rintro ⟨ha, hb, hab⟩
    have hids := (h.mem_ids_iff a).mpr ⟨ha, List.mem_filterMap.mp (hdeclared a ha)⟩
    exact (hcallees hids).mpr ⟨hab, hb⟩

theorem Induced.acyclic_iff (h : Induced methods members g sub)
    (hdeclared : ∀ s ∈ methods, s ∈ members.filterMap signature?) :
    sub.Acyclic ↔ g.AcyclicWithin methods := by
  rw [AcyclicWithin, ← h.calls_eq hdeclared]
  rfl

theorem inCallOrder_sort (hd : g.ids.Nodup) (hac : g.Acyclic) {p : Preferences} (unit : Node)
    (hfirst : p.priorities.head? = some .invocation) (hrespect : p.respectBeforeAfter = true) :
    g.InCallOrder g.ids ((g.methodStack p unit (g.workingList p unit)).1.sort g.ids) := by
  have hperm : ((g.methodStack p unit (g.workingList p unit)).1.sort g.ids).Perm g.ids :=
    Sorting.sortBy_perm _ _
  have hsorted : ((g.methodStack p unit (g.workingList p unit)).1.sort g.ids).Pairwise
      fun a b => (g.arranged p unit).idxOf a ≤ (g.arranged p unit).idxOf b := by
    refine Sorting.sort_key_le (g.arranged p unit).idxOf fun a ha b hb => ?_
    rw [decide_eq_true_iff, compare_methodStack hfirst ha hb, RankTable.byPlace_neg]
  refine ⟨hperm.nodup_iff.mpr hd, fun a ha b hb hne hab => ?_⟩
  have hplaces := (arranged_stepdown unit hd hac hrespect).idxOf_lt (mem_arranged ha)
    (mem_arranged hb) hne (.single hab)
  exact Sorting.pair_sublist hsorted (hperm.mem_iff.mpr ha) (hperm.mem_iff.mpr hb) hne
    (not_le_of_gt hplaces)

end CallGraph

/-- Members are sorted by the calls between them, not by what priorities left of the whole graph. -/
theorem Cluster.ofUnit_inCallOrder {unit : Node} (h : IsBound key body unit)
    {c : Cluster Signature} (hc : c ∈ ofUnit rules g nodes unit) {p : Preferences}
    (hfirst : p.priorities.head? = some .invocation) (hrespect : p.respectBeforeAfter = true)
    (hacyclic : (CallGraph.ofUnit unit).AcyclicWithin c.signatures) :
    (CallGraph.ofUnit unit).InCallOrder c.signatures (c.sortMembers p unit g).signatures := by
  have hdeclared (s : Signature) := (partitions_ofUnit h).declared hc (s := s)
  have hnodup := (partitions_ofUnit h).nodup_signatures hc
  refine ⟨(ofUnit_sortMembers_perm h p hc).nodup_iff.mpr hnodup, fun a ha b hb hne hab => ?_⟩
  rw [signatures_eq] at *
  rw [sortMembers]
  split
  · have hlength : 2 ≤ c.members.length := by
      rcases Sorting.pair_sublist_or ha hb hne with hpair | hpair <;> exact hpair.length_le
    omega
  · have hinduced := CallGraph.induced_ofUnitWithin h.unit h.only c.members
    have hids {s : Signature} (hs : s ∈ c.members) : s ∈ (CallGraph.ofUnitWithin c.members unit).ids :=
      (hinduced.mem_ids_iff s).mpr ⟨hs, List.mem_filterMap.mp (hdeclared s hs)⟩
    have hcalls : (CallGraph.ofUnitWithin c.members unit).Calls a b := by
      rw [hinduced.calls_eq hdeclared]
      exact ⟨ha, hb, hab⟩
    have hsorted := CallGraph.inCallOrder_sort hinduced.nodup_ids
      ((hinduced.acyclic_iff hdeclared).mpr hacyclic) unit hfirst hrespect
    have hfound := (hsorted.before a (hids ha) b (hids hb) hne hcalls).filter c.members.contains
    rw [List.filter_eq_self.mpr (by simp [ha, hb])] at hfound
    exact hfound.trans (List.sublist_append_left _ _)

namespace Sorter

variable {p : Preferences} {unit : Node}

/-- Inside a cluster callers stand in front of what they call, whatever calls were dropped between
the clusters. -/
theorem cluster_stepdown (hread : Java.readUnit text = .ok unit) (hclustering : p.isClustering = true)
    (hfirst : p.priorities.head? = some .invocation) (hrespect : p.respectBeforeAfter = true)
    (hc : c ∈ clustersOf p unit)
    (hacyclic : (CallGraph.ofUnit unit).AcyclicWithin c.signatures) :
    (CallGraph.ofUnit unit).InCallOrder c.signatures c.signatures ∧
      (CallGraph.ofUnit unit).InCallOrder c.signatures (orderOf p unit).orderedSignatures := by
  obtain ⟨key, body, hbound⟩ := Java.readUnit_isBound hread
  have hstrict : (outerStack p unit).Strict (body.filterMap signature?) :=
    CallGraph.methodStack_strict_of_head hfirst fun s hs =>
      CallGraph.mem_ids_of_signature? hbound.unit hs
  have hordered := orderedSignatures_eq hbound hclustering hstrict
  have hlisted : c.signatures.Sublist (orderOf p unit).orderedSignatures := by
    rw [hordered, List.flatMap]
    exact List.sublist_flatten_of_mem (List.mem_map_of_mem (Cluster.inOrder_perm.mem_iff.mpr hc))
  have hwithin : (CallGraph.ofUnit unit).InCallOrder c.signatures c.signatures := by
    rw [clustersOf, MethodComparison.clusters_eq hclustering] at hc
    obtain ⟨d, hd, rfl⟩ := List.mem_map.mp hc
    have hmem (s : Signature) := (Cluster.ofUnit_sortMembers_perm hbound p hd).mem_iff (a := s)
    rw [CallGraph.acyclicWithin_congr hmem] at hacyclic
    refine (Cluster.ofUnit_inCallOrder hbound hd hfirst hrespect hacyclic).mono fun s hs => ?_
    exact (hmem s).mp hs
  refine ⟨hwithin, MemberOrder.nodup_orderedSignatures, fun a ha b hb hne hab => ?_⟩
  exact (hwithin.before a ha b hb hne hab).trans hlisted

def cycleAround : String :=
  "class A{void g(){f();}void f(int i){g();}void f(){f(1);}void h(){f(1);}}"

theorem cluster_stepdown_cycleAround :
    ∃ unit, ∃ c ∈ clustersOf { clusterOverloaded := true } unit,
      Java.readUnit cycleAround = .ok unit ∧ c.signatures = [⟨"f()"⟩, ⟨"f(int)"⟩] ∧
      (CallGraph.ofUnit unit).AcyclicWithin c.signatures ∧
      (CallGraph.ofUnit unit).Calls ⟨"f()"⟩ ⟨"f(int)"⟩ ∧
      ¬(graphBehind { clusterOverloaded := true } unit).Calls ⟨"f()"⟩ ⟨"f(int)"⟩ ∧
      (CallGraph.ofUnit unit).InCallOrder c.signatures c.signatures ∧
      (CallGraph.ofUnit unit).InCallOrder c.signatures
        (orderOf { clusterOverloaded := true } unit).orderedSignatures := by
  obtain ⟨unit, top, body, hread, -, -, ⟨c, hc, hsignatures⟩, hcalls, hdropped, hwithin⟩ :=
    Java.exists_of_readBody? cycleAround (fun unit _ =>
      (∃ c ∈ clustersOf { clusterOverloaded := true } unit,
        c.signatures = [⟨"f()"⟩, ⟨"f(int)"⟩]) ∧
      ⟨"f(int)"⟩ ∈ (CallGraph.ofUnit unit).callees ⟨"f()"⟩ ∧
      ⟨"f(int)"⟩ ∉ (graphBehind { clusterOverloaded := true } unit).callees ⟨"f()"⟩ ∧
      (CallGraph.ofUnitWithin [⟨"f()"⟩, ⟨"f(int)"⟩] unit).Acyclic) (by decide +kernel)
  have hacyclic : (CallGraph.ofUnit unit).AcyclicWithin c.signatures := by
    obtain ⟨key, members, hbound⟩ := Java.readUnit_isBound hread
    have hinduced := CallGraph.induced_ofUnitWithin hbound.unit hbound.only c.signatures
    rw [← hsignatures] at hwithin
    refine (hinduced.acyclic_iff fun s hs => ?_).mp hwithin
    exact (partitions_clustersOf hbound rfl).declared hc hs
  obtain ⟨hmembers, hlisted⟩ := cluster_stepdown hread rfl rfl rfl hc hacyclic
  exact ⟨unit, c, hc, hread, hsignatures, hacyclic, hcalls, hdropped, hmembers,
    hlisted⟩

end Sorter

end CallerFirst
