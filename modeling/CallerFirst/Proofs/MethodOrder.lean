import CallerFirst.Proofs.Comparator
import CallerFirst.Proofs.Exploration
import CallerFirst.Proofs.Sorting
import CallerFirst.Sorter

/-!
# Methods in the order of their calls

Where calls come first among the priorities, the verdict on two methods is their order in an
arrangement of the whole graph with callers first (`exists_stepdown_order`). Whatever goes by such an
arrangement has callers first as well (`orderedSignatures_stepdown`).
-/

namespace CallerFirst

variable {g : CallGraph Signature} {p : Preferences} {unit : Node}

/-- The order of members that preferences give for a unit. -/
def Sorter.orderOf (p : Preferences) (unit : Node) : MemberOrder :=
  let g := CallGraph.ofUnit unit
  preferred.memberOrder p (preferred.comparison p unit g).comparator g.ids

theorem CallGraph.mem_workingList : s ∈ g.workingList p unit ↔ s ∈ g.ids :=
  (Sorting.sortBy_perm _ _).mem_iff

theorem MethodComparison.comparator_ofPreferences (hc : p.isClustering = false) :
    (ofPreferences p unit g).comparator = (g.methodStack p unit (g.workingList p unit)).1 := by
  simp [ofPreferences, hc]

def CallGraph.arranged (p : Preferences) (unit : Node) (g : CallGraph Signature) : List Signature :=
  (Arrangement.traverse p.placement p.strategy { graph := g } (g.workingList p unit)).ordered

theorem CallGraph.mem_arranged (hs : s ∈ g.ids) : s ∈ g.arranged p unit :=
  Arrangement.mem_traverse_root (mem_workingList.mpr hs)

theorem CallGraph.compare_methodStack (hfirst : p.priorities.head? = some .invocation)
    (ha : a ∈ g.ids) (hb : b ∈ g.ids) :
    (g.methodStack p unit (g.workingList p unit)).1.compare a b =
      RankTable.byPlace (g.arranged p unit) a b := by
  obtain ⟨rest, hrest⟩ : ∃ rest, p.priorities = .invocation :: rest := by
    rw [← List.head?_eq_some_iff]
    exact hfirst
  obtain ⟨layers, hstack⟩ : ∃ layers, (g.methodStack p unit (g.workingList p unit)).1 =
      .stack (g.workingList p unit) (.ranks (.ofArrangement (g.arranged p unit)) :: layers) :=
    ⟨_, by simp only [CallGraph.methodStack, hrest, CallGraph.criteria, CallGraph.criterion]; rfl⟩
  have hnodup : (g.arranged p unit).Nodup := Arrangement.nodup_traverse _ _ _ _
  rw [hstack]
  refine Comparator.compare_stack_byPlace (fun s hs => Arrangement.mem_traverse_root hs)
    (fun a ha b hb => ?_) (CallGraph.mem_workingList.mpr ha) (CallGraph.mem_workingList.mpr hb)
  exact RankTable.compare_ofArrangement hnodup ha hb

theorem MethodComparison.compare_arranged (hfirst : p.priorities.head? = some .invocation)
    (hc : p.isClustering = false) (ha : a ∈ g.ids) (hb : b ∈ g.ids) :
    (ofPreferences p unit g).comparator.compare a b =
      RankTable.byPlace (g.arranged p unit) a b := by
  rw [comparator_ofPreferences hc, CallGraph.compare_methodStack hfirst ha hb]

theorem CallGraph.arranged_stepdown (unit : Node) (hd : g.ids.Nodup) (hac : g.Acyclic)
    (hr : p.respectBeforeAfter = true) : g.Stepdown (g.arranged p unit) := by
  have hplacement : p.placement = .beforeCallees := by simp [Preferences.placement, hr]
  have hordered := Arrangement.traverse_stepdown hd hac p.strategy (g.workingList p unit)
  rw [← hplacement] at hordered
  exact hordered.stepdown

theorem MethodComparison.exists_stepdown_order (unit : Node) (hd : g.ids.Nodup) (hac : g.Acyclic)
    (hfirst : p.priorities.head? = some .invocation) (hr : p.respectBeforeAfter = true)
    (hc : p.isClustering = false) :
    ∃ ordered, g.Stepdown ordered ∧ (∀ s ∈ g.ids, s ∈ ordered) ∧
      ∀ a ∈ g.ids, ∀ b ∈ g.ids,
        (ofPreferences p unit g).comparator.compare a b = RankTable.byPlace ordered a b := by
  exact ⟨g.arranged p unit, CallGraph.arranged_stepdown unit hd hac hr,
    fun s hs => CallGraph.mem_arranged hs, fun a ha b hb => compare_arranged hfirst hc ha hb⟩

theorem RankTable.byPlace_neg : byPlace ordered a b < 0 ↔ ordered.idxOf a < ordered.idxOf b := by
  unfold byPlace
  split
  · simp_all
  · split <;> simp_all

theorem CallGraph.Stepdown.idxOf_lt (h : g.Stepdown ordered) (ha : a ∈ ordered) (hb : b ∈ ordered)
    (hne : a ≠ b) (hab : g.Reaches a b) : ordered.idxOf a < ordered.idxOf b := by
  by_contra hle
  have hidx : ordered.idxOf a ≠ ordered.idxOf b := fun heq => hne ((List.idxOf_inj ha).mp heq)
  have hlt : ordered.idxOf b < ordered.idxOf a := by omega
  have hpair := List.pairwise_iff_getElem.mp h _ _ (List.idxOf_lt_length_of_mem hb)
    (List.idxOf_lt_length_of_mem ha) hlt
  simp only [List.getElem_idxOf] at hpair
  exact hpair hab

-- ---------------------------------------------------------------------------
-- Members
-- ---------------------------------------------------------------------------

namespace MemberOrder

variable {o : MemberOrder} {ms : List Node}

theorem mem_of_mem_tag {x : Nat × Node} (h : x ∈ tag ms) : x.2 ∈ ms := by
  obtain ⟨i, hi, rfl⟩ := List.mem_mapIdx.mp h
  exact List.getElem_mem hi

theorem sort_perm (hall : o.methodsOnly = false) : (o.sort ms).Perm (tag ms) := by
  simp only [sort, hall, Bool.false_eq_true, ↓reduceIte]
  exact Sorting.sortBy_perm _ _

-- ---------------------------------------------------------------------------
-- Known signatures
-- ---------------------------------------------------------------------------

theorem orderedSignatures_perm :
    o.orderedSignatures.Perm (o.known.filter (!·.isSynthetic)).eraseDups :=
  (Sorting.sortBy_perm _ _).trans (Sorting.sort_perm _ _)

theorem mem_orderedSignatures : s ∈ o.orderedSignatures ↔ s ∈ o.known ∧ s.isSynthetic = false := by
  rw [orderedSignatures_perm.mem_iff, List.mem_eraseDups, List.mem_filter]
  simp

theorem nodup_eraseDups (xs : List Signature) : xs.eraseDups.Nodup := by
  induction hlen : xs.length using Nat.strongRecOn generalizing xs with
  | ind n ih =>
    cases xs with
    | nil => exact .nil
    | cons s xs =>
      rw [List.eraseDups_cons, List.nodup_cons]
      refine ⟨fun h => ?_, ih _ ?_ _ rfl⟩
      · simp at h
      · have := List.length_filter_le (fun t => !t == s) xs
        simp only [List.length_cons] at hlen
        omega

theorem nodup_orderedSignatures : o.orderedSignatures.Nodup :=
  orderedSignatures_perm.nodup_iff.mpr (nodup_eraseDups _)

theorem orderedSignatures_stepdown (hs : g.Stepdown ordered) (hknown : ∀ s ∈ o.known, s ∈ ordered)
    (hcompare : ∀ a ∈ o.known, ∀ b ∈ o.known,
      o.comparator.compare a b = RankTable.byPlace ordered a b) :
    g.Stepdown o.orderedSignatures := by
  have hkeys : o.orderedSignatures.Pairwise fun a b => ordered.idxOf a ≤ ordered.idxOf b := by
    refine Sorting.sort_key_le ordered.idxOf fun a ha b hb => ?_
    have hmem {s : Signature}
        (h : s ∈ Sorting.sort (fun a b => decide (a < b)) (o.known.filter (!·.isSynthetic)).eraseDups) :
        s ∈ o.known := by
      rw [(Sorting.sort_perm _ _).mem_iff, List.mem_eraseDups, List.mem_filter] at h
      exact h.1
    rw [decide_eq_true_iff, hcompare a (hmem ha) b (hmem hb), RankTable.byPlace_neg]
  refine (hkeys.and nodup_orderedSignatures).imp_of_mem ?_
  rintro a b ha hb ⟨hle, hne⟩ hba
  have := hs.idxOf_lt (hknown b (mem_orderedSignatures.mp hb).1)
    (hknown a (mem_orderedSignatures.mp ha).1) (Ne.symm hne) hba
  omega

end MemberOrder

end CallerFirst
