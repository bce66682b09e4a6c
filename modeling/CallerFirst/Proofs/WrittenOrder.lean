import CallerFirst.Proofs.ClusterOrder
import CallerFirst.Proofs.SortedMembers

/-!
# The order that is reported is the order that is written

Signatures are sorted from their names, members from their places in the body, and ties are broken
for members only. Where the priorities leave no ties between methods, both go by one list of
signatures: `ordered_as_written`.
-/

namespace CallerFirst

open Node

-- ---------------------------------------------------------------------------
-- Members by a list of signatures
-- ---------------------------------------------------------------------------

theorem Comparator.Follows.sign_compare {c : Comparator} (h : c.Follows ordered) (ha : a ∈ ordered)
    (hb : b ∈ ordered) : (c.compare a b).sign = RankTable.byPlace ordered a b := by
  have hplaces {a b : Signature} (ha : a ∈ ordered) (hb : b ∈ ordered)
      (hlt : ordered.idxOf a < ordered.idxOf b) : c.compare a b < 0 ∧ 0 < c.compare b a := by
    have hpair := List.pairwise_iff_getElem.mp h _ _ (List.idxOf_lt_length_of_mem ha)
      (List.idxOf_lt_length_of_mem hb) hlt
    simpa only [List.getElem_idxOf] using hpair
  unfold RankTable.byPlace
  rcases Nat.lt_trichotomy (ordered.idxOf a) (ordered.idxOf b) with hlt | heq | hlt
  · rw [if_pos hlt, Int.sign_eq_neg_one_of_neg (hplaces ha hb hlt).1]
  · obtain rfl := (List.idxOf_inj ha).mp heq
    simp [compare_self]
  · rw [if_neg hlt.not_gt, if_pos hlt, Int.sign_eq_one_of_pos (hplaces hb ha hlt).2]

namespace MemberOrder

variable {o : MemberOrder} {ordered : List Signature} {ms : List Node} {m n : Node}

theorem compareAll_neg_congr {o' : MemberOrder} (hranks : o.ranks = o'.ranks)
    (hverdict : ∀ a b, m.signature? = some a → n.signature? = some b →
      o.knows a b = true ∧ o'.knows a b = true ∧
        (o.comparator.compare a b).sign = (o'.comparator.compare a b).sign) :
    o.compareAll m n < 0 ↔ o'.compareAll m n < 0 := by
  have hrank (k : Node) : o.rank k = o'.rank k := by rw [rank, rank, hranks]
  unfold compareAll
  rw [hrank m, hrank n]
  split
  · rfl
  · split
    · rfl
    · cases ha : m.signature? with
      | none => rfl
      | some a =>
        cases hb : n.signature? with
        | none => rfl
        | some b =>
          obtain ⟨hknows, hknows', hsign⟩ := hverdict a b ha hb
          simp only [hknows, hknows', ↓reduceIte]
          have hzero : o.comparator.compare a b = 0 ↔ o'.comparator.compare a b = 0 := by
            rw [← Int.sign_eq_zero_iff_zero, hsign, Int.sign_eq_zero_iff_zero]
          have hneg : o.comparator.compare a b < 0 ↔ o'.comparator.compare a b < 0 := by
            rw [← Int.sign_eq_neg_one_iff_neg, hsign, Int.sign_eq_neg_one_iff_neg]
          by_cases h : o.comparator.compare a b = 0
          · rw [if_pos h, if_pos (hzero.mp h)]
          · rw [if_neg h, if_neg (hzero.not.mp h), hneg]

def byList (o : MemberOrder) (ordered : List Signature) : MemberOrder :=
  { o with comparator := .ranks (.ofArrangement ordered), known := ordered }

theorem goesBy_byList (hall : o.methodsOnly = false) (hranks : o.ranks = {}) (hnodup : ordered.Nodup)
    (hlisted : ∀ m ∈ ms, ∀ s, m.signature? = some s → s ∈ ordered)
    (hmembers : ∀ m ∈ ms, m.isMember = true)
    (hunmixed : ∀ m ∈ ms, ∀ n ∈ ms,
      m.category? = some .annotationMembers → n.category? ≠ some .methods) :
    GoesBy (o.byList ordered) ordered ms :=
  ⟨hall, hranks, fun _ ha _ hb => RankTable.compare_ofArrangement hnodup ha hb, hlisted, hmembers,
    hunmixed⟩

theorem sort_key_le_of_follows (hlist : GoesBy (o.byList ordered) ordered ms)
    (hfollows : o.comparator.Follows ordered) (hknown : ∀ s ∈ ordered, s ∈ o.known) :
    (o.sort ms).Pairwise fun x y => sortKey ordered x.2 ≤ sortKey ordered y.2 := by
  have hall : o.methodsOnly = false := hlist.all
  simp only [sort, hall, Bool.false_eq_true, ↓reduceIte]
  refine Sorting.sort_key_le (fun x : Nat × Node => sortKey ordered x.2) fun x hx y hy => ?_
  have hxs := mem_of_mem_tag hx
  have hys := mem_of_mem_tag hy
  have hcompare : o.compare x.2 y.2 = o.compareAll x.2 y.2 := by simp [MemberOrder.compare, hall]
  simp only [decide_eq_true_iff, hcompare]
  rw [← hlist.compareAll_neg_iff hxs hys]
  refine compareAll_neg_congr rfl fun a b ha hb => ?_
  have ha := hlist.known x.2 hxs a ha
  have hb := hlist.known y.2 hys b hb
  refine ⟨by simp [knows, hknown a ha, hknown b hb], ?_, ?_⟩
  · simpa [knows] using ⟨ha, hb⟩
  · rw [hfollows.sign_compare ha hb, hlist.compare a ha b hb, RankTable.byPlace]
    split
    · rfl
    · split <;> rfl

/-- Signatures of the methods among members, constructors left out. -/
def plainSignatures (ms : List Node) : List Signature :=
  (ms.filter (·.isPlainMethod)).filterMap (·.signature?)

theorem mem_plainSignatures_of_perm {ns : List Node} (h : ms.Perm ns) :
    s ∈ plainSignatures ms ↔ s ∈ plainSignatures ns :=
  ((h.filter _).filterMap _).mem_iff

theorem eraseDups_sublist (xs : List Signature) : xs.eraseDups.Sublist xs :=
  match xs with
  | [] => .slnil
  | s :: xs => by
    rw [List.eraseDups_cons]
    exact ((eraseDups_sublist _).trans List.filter_sublist).cons_cons s
termination_by xs.length
decreasing_by simpa using Nat.lt_succ_of_le (List.length_filter_le _ xs)

/-- The methods of sorted members, each signature once, are the list without the others. -/
theorem plainSignatures_sort (hnodup : ordered.Nodup) (hlisted : ∀ s ∈ plainSignatures ms, s ∈ ordered)
    (hall : o.methodsOnly = false)
    (hsorted : (o.sort ms).Pairwise fun x y => sortKey ordered x.2 ≤ sortKey ordered y.2) :
    (plainSignatures ((o.sort ms).map Prod.snd)).eraseDups =
      ordered.filter (plainSignatures ms).contains := by
  have hmem (s : Signature) :
      s ∈ plainSignatures ((o.sort ms).map Prod.snd) ↔ s ∈ plainSignatures ms :=
    mem_plainSignatures_of_perm (sort_snd_perm hall ms)
  have hplaces : (plainSignatures ((o.sort ms).map Prod.snd)).Pairwise fun a b =>
      ordered.idxOf a ≤ ordered.idxOf b := by
    refine List.pairwise_filterMap.mpr (List.pairwise_filter.mpr (List.pairwise_map.mpr ?_))
    refine hsorted.imp fun {x y} hxy hx hy a ha b hb => ?_
    by_contra hlt
    exact absurd hxy (not_le_of_gt (sortKey_lt_of_idxOf_lt hy hx hb ha (not_le.mp hlt)))
  have hfiltered : (ordered.filter (plainSignatures ms).contains).Pairwise fun a b =>
      ordered.idxOf a ≤ ordered.idxOf b :=
    ((Sorting.pairwise_idxOf hnodup).imp le_of_lt).sublist List.filter_sublist
  refine List.Perm.eq_of_pairwise (fun a b _ hb hab hba => ?_)
    (hplaces.sublist (eraseDups_sublist _)) hfiltered ?_
  · exact ((List.idxOf_inj (List.mem_of_mem_filter hb)).mp (le_antisymm hba hab)).symm
  · rw [List.perm_ext_iff_of_nodup (nodup_eraseDups _) (hnodup.filter _)]
    intro s
    rw [List.mem_eraseDups, hmem, List.mem_filter, List.contains_iff_mem]
    exact ⟨fun h => ⟨hlisted s h, h⟩, And.right⟩

end MemberOrder

-- ---------------------------------------------------------------------------
-- Units
-- ---------------------------------------------------------------------------

namespace Sorter

variable {p : Preferences} {unit : Node}

theorem orderedSignatures_follows (h : IsBound key body unit)
    (hstrict : (outerStack p unit).Strict (body.filterMap signature?)) :
    (orderOf p unit).comparator.Follows (orderOf p unit).orderedSignatures := by
  cases hc : p.isClustering with
  | true =>
    have hpartitions := partitions_clustersOf h hc
    rw [orderedSignatures_eq h hc hstrict, comparator_orderOf hc]
    exact Cluster.clustered_follows hpartitions.nodup hpartitions.main_mem
      (hstrict.mono (mains_clustersOf h hc))
  | false =>
    have hcomparator : (orderOf p unit).comparator = outerStack p unit :=
      MethodComparison.comparator_ofPreferences hc
    have hperm := Sorting.sort_perm (fun a b => decide (a < b))
      ((orderOf p unit).known.filter (!·.isSynthetic)).eraseDups
    have hnodup := hperm.nodup_iff.mpr (MemberOrder.nodup_eraseDups _)
    rw [MemberOrder.orderedSignatures, hcomparator]
    refine Comparator.Strict.sortBy_pairwise (f := id) (hstrict.mono fun s hs => ?_) (by simpa using hnodup)
    rw [List.map_id, hperm.mem_iff, List.mem_eraseDups, List.mem_filter, Bool.not_eq_true'] at hs
    exact (CallGraph.mem_ids_ofUnit_iff h).mp hs

/-- With the default order of categories, methods are written in the order in which their signatures
are reported. -/
theorem ordered_as_written (hread : Java.readUnit text = .ok unit) (hranks : p.categoryRanks = {})
    (hreach : .reachability ∉ p.priorities)
    (hdecides : .invocation ∈ p.priorities ∨ .sourcePosition ∈ p.priorities ∨
      .lexical ∈ p.priorities)
    (htop : unit.topLevelType = .ok (some top)) (hbody : top.members = .ok body)
    (hms : ∀ m ∈ ms, m ∈ body) :
    (MemberOrder.plainSignatures (((orderOf p unit).sort ms).map Prod.snd)).eraseDups =
      (orderOf p unit).orderedSignatures.filter (MemberOrder.plainSignatures ms).contains := by
  obtain ⟨key, members, hbound⟩ := Java.readUnit_isBound hread
  obtain ⟨r, others, rfl, rfl⟩ := Java.exists_reading hread htop hbody
  obtain rfl : members = r.members := by
    have hunit : IsUnitOf key members
      (.unit text r.package (.type { index := 0 } r.header r.members :: others)) := hbound.unit
    cases hunit
    rfl
  have hstrict := outerStack_strict hbound hreach hdecides
  have hlisted (m : Node) (hm : m ∈ ms) (s : Signature) (hs : m.signature? = some s) :
      s ∈ (orderOf p (r.unit others)).orderedSignatures := by
    rw [MemberOrder.mem_orderedSignatures]
    exact (CallGraph.mem_ids_ofUnit_iff hbound).mpr (List.mem_filterMap.mpr ⟨m, hms m hm, hs⟩)
  refine MemberOrder.plainSignatures_sort MemberOrder.nodup_orderedSignatures (fun s hs => ?_) rfl ?_
  · obtain ⟨m, hm, hs⟩ := List.mem_filterMap.mp hs
    exact hlisted m (List.mem_of_mem_filter hm) s hs
  · have hgoes := MemberOrder.goesBy_byList (o := orderOf p (r.unit others)) rfl hranks
      MemberOrder.nodup_orderedSignatures hlisted (fun m hm => r.isMember (hms m hm))
      fun m hm n hn => r.unmixed_members (hms m hm) (hms n hn)
    exact MemberOrder.sort_key_le_of_follows hgoes (orderedSignatures_follows hbound hstrict)
      fun s hs => (MemberOrder.mem_orderedSignatures.mp hs).1

def sharedSignatures : String :=
  "class A\x7bA(int i){f(i);}void f(Set<A> s){}int A(){return 0;}int y;void g(){f(null);h();}A(){}" ++
    "void f(int i){g();}void h(){}void f(Set<B> s){A();}\x7d"

theorem ordered_as_written_sharedSignatures :
    ∃ unit top body, Java.readUnit sharedSignatures = .ok unit ∧
      unit.topLevelType = .ok (some top) ∧ top.members = .ok body ∧
      (MemberOrder.plainSignatures body).length = 6 ∧
      (MemberOrder.plainSignatures
        (((orderOf { clusterOverloaded := true } unit).sort body).map Prod.snd)).eraseDups =
        (orderOf { clusterOverloaded := true } unit).orderedSignatures.filter
          (MemberOrder.plainSignatures body).contains ∧
      (orderOf { clusterOverloaded := true } unit).orderedSignatures =
        [⟨"A(int)"⟩, ⟨"A()"⟩, ⟨"g()"⟩, ⟨"f(int)"⟩, ⟨"f(Set)"⟩, ⟨"h()"⟩] := by
  obtain ⟨unit, top, body, hread, htop, hbody, hlength, hordered⟩ :=
    Java.exists_of_readBody? sharedSignatures (fun unit body =>
      (MemberOrder.plainSignatures body).length = 6 ∧
      (orderOf { clusterOverloaded := true } unit).orderedSignatures =
        [⟨"A(int)"⟩, ⟨"A()"⟩, ⟨"g()"⟩, ⟨"f(int)"⟩, ⟨"f(Set)"⟩, ⟨"h()"⟩]) (by decide +kernel)
  exact ⟨unit, top, body, hread, htop, hbody, hlength, ordered_as_written hread rfl (by decide)
    (by decide) htop hbody fun _ => id, hordered⟩

end Sorter

end CallerFirst
