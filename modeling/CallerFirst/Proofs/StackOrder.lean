import CallerFirst.Proofs.StableSorting
import CallerFirst.Proofs.WeakOrder

/-!
# Stacks order lexicographically

There is only one stable sort, so asking one comparison after the other is sorting by the last first
(`sortBy_thenBy`).
`stack_lexicographic`: a stack of ranks and names is an order up to ties on the signatures it knows,
sorts layer by layer, and keeps its verdicts when a layer is added.
-/

namespace CallerFirst

-- ---------------------------------------------------------------------------
-- Stable sorts
-- ---------------------------------------------------------------------------

namespace Sorting

variable {α : Type} {xs : List α} {compare first second : α → α → Int}

/-- Where one comparison is asked after the other, the list is sorted by the second first. -/
theorem sortBy_thenBy (h : Weak first) (h' : Weak second) (xs : List α) :
    sortBy (thenBy first second) xs = sortBy first (sortBy second xs) := by
  let tagged (compare : α → α → Int) (x y : α × Nat) : Bool := decide (compare x.1 y.1 < 0)
  have hplaces := zipIdx_pairwise xs
  have hsecond := sort_stable _ (h'.consistent xs).tagged hplaces
  have hfirst := sort_stable _ ((h.comap Prod.fst).consistent _) hsecond
  have hthen : sort (tagged (thenBy first second)) xs.zipIdx =
      sort (tagged first) (sort (tagged second) xs.zipIdx) := by
    refine sort_eq_of_inOrder ((h.thenBy h').consistent xs).tagged hplaces
      (fun _ _ => Nat.lt_asymm) ((sort_perm _ _).trans (sort_perm _ _)) (hfirst.imp ?_)
    intro x y hxy
    have := h.flip x.1 y.1
    have := h.flip y.1 x.1
    simp only [InOrder, tagged, decide_eq_true_eq, decide_eq_false_iff_not, thenBy_neg] at hxy ⊢
    omega
  show sort _ xs = sort _ (sort _ xs)
  rw [sort_eq_map_zipIdx, sort_eq_map_zipIdx _ xs, sort_map]
  exact congrArg (List.map Prod.fst) hthen

theorem pair_sublist_asymm {a b : α} (hnodup : xs.Nodup) (hab : [a, b].Sublist xs) :
    ¬[b, a].Sublist xs := by
  classical
  intro hba
  have hplaces {c d : α} (hcd : [c, d].Sublist xs) : xs.idxOf c < xs.idxOf d :=
    List.pairwise_iff_forall_sublist.mp (pairwise_idxOf hnodup) hcd
  exact (hplaces hab).asymm (hplaces hba)

theorem le_trans_of_weak (h : Weak compare) (a b c : α) (hab : decide (compare a b ≤ 0) = true)
    (hbc : decide (compare b c ≤ 0) = true) : decide (compare a c ≤ 0) = true := by
  have := h.flip b a
  have := h.flip c b
  have := h.flip c a
  have := h.trans a b c
  simp only [decide_eq_true_eq] at hab hbc ⊢
  omega

theorem le_total_of_weak (h : Weak compare) (a b : α) :
    (decide (compare a b ≤ 0) || decide (compare b a ≤ 0)) = true := by
  have := h.flip b a
  simp only [Bool.or_eq_true, decide_eq_true_eq]
  omega

theorem mergeSort_inOrder {before : α → α → Prop} (h : Weak compare) (hb : xs.Pairwise before)
    (hnodup : xs.Nodup) :
    (xs.mergeSort fun a b => compare a b ≤ 0).Pairwise
      (InOrder (fun a b => decide (compare a b < 0)) before) := by
  refine List.pairwise_iff_forall_sublist.mpr fun {a b} hab => ?_
  have hle := List.pairwise_iff_forall_sublist.mp
    (List.pairwise_mergeSort (le_trans_of_weak h) (le_total_of_weak h) _) hab
  have hmem {c : α} (hc : c ∈ [a, b]) : c ∈ xs := List.mem_mergeSort.mp (hab.subset hc)
  have hsorted := (List.mergeSort_perm xs fun a b => compare a b ≤ 0).nodup_iff.mpr hnodup
  have := h.flip a b
  have := h.flip b a
  simp only [decide_eq_true_eq] at hle
  rcases Int.lt_or_eq_of_le hle with hlt | htie
  · exact .inl (decide_eq_true hlt)
  · refine .inr ⟨decide_eq_false (by omega), ?_⟩
    have hne : a ≠ b := by
      rintro rfl
      exact List.not_nodup_pair a (hsorted.sublist hab)
    -- the other way round the tie would have kept `b` in front
    rcases pair_sublist_or (hmem (by simp)) (hmem (by simp)) hne with hsub | hsub
    · exact List.pairwise_iff_forall_sublist.mp hb hsub
    · refine absurd (List.pair_sublist_mergeSort (le_trans_of_weak h) (le_total_of_weak h) ?_ hsub)
        (pair_sublist_asymm hsorted hab)
      simp only [decide_eq_true_eq]
      omega

theorem sortBy_eq_mergeSort (h : Weak compare) (xs : List α) :
    sortBy compare xs = xs.mergeSort fun a b => compare a b ≤ 0 := by
  have hplaces := zipIdx_pairwise xs
  have hstable := mergeSort_inOrder (h.comap Prod.fst) hplaces
    (hplaces.imp fun hlt heq => (heq ▸ hlt).false)
  have hsort := sort_eq_of_inOrder (h.consistent xs).tagged hplaces (fun _ _ => Nat.lt_asymm)
    (List.mergeSort_perm _ _) hstable
  have hmap : (xs.zipIdx.mergeSort fun x y => compare x.1 y.1 ≤ 0).map Prod.fst =
      (xs.zipIdx.map Prod.fst).mergeSort fun a b => compare a b ≤ 0 :=
    List.map_mergeSort fun _ _ _ _ => rfl
  have htagged : xs.zipIdx.map Prod.fst = xs := by simp
  rw [sortBy, sort_eq_map_zipIdx, hsort, hmap, htagged]

end Sorting

-- ---------------------------------------------------------------------------
-- Stacks
-- ---------------------------------------------------------------------------

/-- A three-way comparison that is an order up to ties on some elements. -/
structure OrdersUpToTies (compare : α → α → Int) (xs : List α) : Prop where
  refl : ∀ a ∈ xs, compare a a = 0
  flip : ∀ a ∈ xs, ∀ b ∈ xs, compare a b < 0 ↔ 0 < compare b a
  total : ∀ a ∈ xs, ∀ b ∈ xs, compare a b ≤ 0 ∨ compare b a ≤ 0
  trans : ∀ a ∈ xs, ∀ b ∈ xs, ∀ c ∈ xs, compare a b ≤ 0 → compare b c ≤ 0 → compare a c ≤ 0

namespace Comparator

variable {layers : List Comparator} {known xs : List Signature} {c : Comparator}

/-- A layer that goes by ranks that can be compared, by names, or by nothing. -/
inductive IsSimple : Comparator → Prop
  | ranks (h : table.Defined) : IsSimple (.ranks table)
  | lexical : IsSimple .lexical
  | null : IsSimple .null

theorem IsSimple.weak (h : c.IsSimple) : Weak c.compare := by
  cases h with
  | ranks h => exact h.weak
  | lexical => exact Weak.byKey Signature.key
  | null => exact .zero

theorem compare_stack (ha : a ∈ known) (hb : b ∈ known) :
    (stack known layers).compare a b = firstVerdict layers a b := by
  have hknows : (known.contains a && known.contains b) = true := by simp [ha, hb]
  rw [compare, if_pos hknows]

theorem ordersUpToTies_stack (h : ∀ c ∈ layers, c.IsSimple) (known : List Signature) :
    OrdersUpToTies (stack known layers).compare known := by
  have hweak : Weak (firstVerdict layers) := weak_firstVerdict fun c hc => (h c hc).weak
  refine ⟨fun a _ => compare_self a _, fun a ha b hb => ?_, fun a ha b hb => ?_,
    fun a ha b hb c hc hab hbc => ?_⟩
  · rw [compare_stack ha hb, compare_stack hb ha]
    exact hweak.flip a b
  · have := hweak.flip b a
    rw [compare_stack ha hb, compare_stack hb ha]
    omega
  · have := hweak.flip b a
    have := hweak.flip c b
    have := hweak.flip c a
    have := hweak.trans a b c
    rw [compare_stack ha hb] at hab
    rw [compare_stack hb hc] at hbc
    rw [compare_stack ha hc]
    omega

theorem sort_stack (layers : List Comparator) (hxs : ∀ s ∈ xs, s ∈ known) :
    (stack known layers).sort xs = Sorting.sortBy (firstVerdict layers) xs :=
  Sorting.sort_congr fun a ha b hb => by rw [compare_stack (hxs a ha) (hxs b hb)]

/-- Each layer is asked where those in front of it leave a pair open, so it sorts first. -/
theorem sortBy_firstVerdict (h : ∀ c ∈ layers, c.IsSimple) (xs : List Signature) :
    Sorting.sortBy (firstVerdict layers) xs =
      layers.foldr (fun c ys => ys.mergeSort fun a b => c.compare a b ≤ 0) xs := by
  induction layers with
  | nil => exact Sorting.sort_of_ties (fun _ _ => rfl) xs
  | cons layer layers ih =>
    have hrest : ∀ c ∈ layers, c.IsSimple := fun c hc => h c (.tail _ hc)
    have hlayer := (h layer List.mem_cons_self).weak
    have hweak : Weak (firstVerdict layers) := weak_firstVerdict fun c hc => (hrest c hc).weak
    have hverdict : firstVerdict (layer :: layers) = thenBy layer.compare (firstVerdict layers) := by
      funext a b
      exact firstVerdict_cons layer layers a b
    rw [hverdict, Sorting.sortBy_thenBy hlayer hweak, ih hrest, Sorting.sortBy_eq_mergeSort hlayer,
      List.foldr_cons]

theorem compare_addLayer (layer : Comparator)
    (h : (stack known layers).compare a b ≠ 0) :
    ((stack known layers).addLayer layer).compare a b = (stack known layers).compare a b := by
  unfold addLayer compare at *
  split
  · rename_i hknows
    rw [if_pos hknows] at h
    rw [firstVerdict_append, thenBy, if_neg h]
  · rfl

/-- A stack of simple layers is a lexicographic order. -/
theorem stack_lexicographic (h : ∀ c ∈ layers, c.IsSimple) (known : List Signature) :
    OrdersUpToTies (stack known layers).compare known ∧
    (∀ xs : List Signature, (∀ s ∈ xs, s ∈ known) →
      (stack known layers).sort xs =
        layers.foldr (fun c ys => ys.mergeSort fun a b => c.compare a b ≤ 0) xs) ∧
    (∀ layer a b, (stack known layers).compare a b ≠ 0 →
      ((stack known layers).addLayer layer).compare a b = (stack known layers).compare a b) := by
  refine ⟨ordersUpToTies_stack h known, fun xs hxs => ?_, fun layer a b => compare_addLayer layer⟩
  rw [sort_stack layers hxs, sortBy_firstVerdict h]

/-- Two methods that tie by rank, one behind all ranks, one without a rank in front of them. -/
def mixedLayers : List Comparator :=
  [.ranks { entries := [(⟨"b()"⟩, .top), (⟨"d()"⟩, 1), (⟨"a()"⟩, 1)], unknownFirst := true },
    .null, .lexical]

theorem stack_lexicographic_mixed :
    (∀ c ∈ mixedLayers, c.IsSimple) ∧
    OrdersUpToTies (stack [⟨"a()"⟩, ⟨"b()"⟩, ⟨"c()"⟩, ⟨"d()"⟩] mixedLayers).compare
      [⟨"a()"⟩, ⟨"b()"⟩, ⟨"c()"⟩, ⟨"d()"⟩] ∧
    mixedLayers.foldr (fun c ys => ys.mergeSort fun a b => c.compare a b ≤ 0)
        [⟨"d()"⟩, ⟨"b()"⟩, ⟨"a()"⟩, ⟨"c()"⟩, ⟨"d()"⟩] =
      [⟨"c()"⟩, ⟨"a()"⟩, ⟨"d()"⟩, ⟨"d()"⟩, ⟨"b()"⟩] := by
  have hsimple : ∀ c ∈ mixedLayers, c.IsSimple := by
    simp only [mixedLayers, List.forall_mem_cons, List.not_mem_nil, false_imp_iff, implies_true,
      and_true]
    exact ⟨.ranks (by simp [RankTable.Defined]), .null, .lexical⟩
  obtain ⟨horder, hsort, -⟩ :=
    stack_lexicographic hsimple [⟨"a()"⟩, ⟨"b()"⟩, ⟨"c()"⟩, ⟨"d()"⟩]
  refine ⟨hsimple, horder, ?_⟩
  rw [← hsort _ (by decide)]
  decide +kernel

end Comparator

end CallerFirst
