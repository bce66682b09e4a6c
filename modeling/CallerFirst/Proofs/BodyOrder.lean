import CallerFirst.Proofs.InitialOrder
import CallerFirst.Proofs.RankTable
import CallerFirst.Proofs.SortedMembers
import CallerFirst.Proofs.StackOrder

/-!
# The order of a whole body

With the default ranks, and methods compared by any order up to ties, the members of a body stand in
a strict order by a key: what keeps its order, then constructors, then all else. `sorted_in_groups`:
sorting puts these groups one after the other, each stably sorted.
-/

namespace CallerFirst

-- ---------------------------------------------------------------------------
-- Orders up to ties by numbers
-- ---------------------------------------------------------------------------

/-- Number of elements of a list that a comparison puts below one. -/
def level [DecidableEq α] (compare : α → α → Int) (xs : List α) (a : α) : ℕ :=
  (xs.toFinset.filter fun b => compare b a < 0).card

namespace OrdersUpToTies

variable {compare : α → α → Int} {xs : List α}

theorem lt_of_lt_of_le (h : OrdersUpToTies compare xs) (ha : a ∈ xs) (hb : b ∈ xs) (hc : c ∈ xs)
    (hab : compare a b < 0) (hbc : compare b c ≤ 0) : compare a c < 0 := by
  by_contra hac
  have hca : compare c a ≤ 0 := by
    have := h.flip c hc a ha
    have := h.flip a ha c hc
    omega
  have hba := h.trans b hb c hc a ha hbc hca
  have := h.flip a ha b hb
  omega

variable [DecidableEq α]

theorem level_le (h : OrdersUpToTies compare xs) (ha : a ∈ xs) (hb : b ∈ xs)
    (hab : compare a b ≤ 0) : level compare xs a ≤ level compare xs b := by
  refine Finset.card_le_card fun c hc => ?_
  rw [Finset.mem_filter, List.mem_toFinset] at hc ⊢
  exact ⟨hc.1, h.lt_of_lt_of_le hc.1 ha hb hc.2 hab⟩

theorem neg_iff_level (h : OrdersUpToTies compare xs) (ha : a ∈ xs) (hb : b ∈ xs) :
    compare a b < 0 ↔ level compare xs a < level compare xs b := by
  constructor
  · intro hab
    have hself := h.refl a ha
    refine Finset.card_lt_card ⟨fun c hc => ?_, fun hsubset => ?_⟩
    · rw [Finset.mem_filter, List.mem_toFinset] at hc ⊢
      exact ⟨hc.1, h.lt_of_lt_of_le hc.1 ha hb hc.2 hab.le⟩
    · -- `a` itself is below `b`, but not below `a`
      have hmem := hsubset (Finset.mem_filter.mpr ⟨List.mem_toFinset.mpr ha, hab⟩)
      have := (Finset.mem_filter.mp hmem).2
      omega
  · intro hlt
    by_contra hab
    have := h.flip a ha b hb
    have := h.flip b hb a ha
    have := h.level_le hb ha (by omega)
    omega

theorem pos_iff_level (h : OrdersUpToTies compare xs) (ha : a ∈ xs) (hb : b ∈ xs) :
    0 < compare a b ↔ level compare xs b < level compare xs a := by
  rw [← h.flip b hb a ha, h.neg_iff_level hb ha]

theorem exists_ranks {compare : Signature → Signature → Int} {xs : List Signature}
    (h : OrdersUpToTies compare xs) : ∃ table : RankTable, ∀ a ∈ xs, ∀ b ∈ xs,
      ((Comparator.ranks table).compare a b < 0 ↔ compare a b < 0) ∧
        (0 < (Comparator.ranks table).compare a b ↔ 0 < compare a b) := by
  let rank (s : Signature) : Rank := .finite (level compare xs s)
  refine ⟨.ofNodes xs.dedup rank, fun a ha b hb => ?_⟩
  have hget {s : Signature} (hs : s ∈ xs) :
      (RankTable.ofNodes xs.dedup rank).get? s = some (rank s) :=
    RankTable.get?_ofNodes xs.nodup_dedup (List.mem_dedup.mpr hs) rank
  rw [h.neg_iff_level ha hb, h.pos_iff_level ha hb, Comparator.compare, RankTable.compare, hget ha,
    hget hb]
  simp only [rank, Rank.compare_natCast]
  split
  · omega
  · split <;> omega

end OrdersUpToTies

theorem byKey_neg [LinearOrder κ] {key : α → κ} : byKey key a b < 0 ↔ key a < key b := by
  unfold byKey
  split
  · simp [*]
  · split <;> simp [*]

structure OrdersStrictly (compare : α → α → Int) (xs : List α) : Prop where
  eq_zero_iff : ∀ a ∈ xs, ∀ b ∈ xs, compare a b = 0 ↔ a = b
  flip : ∀ a ∈ xs, ∀ b ∈ xs, compare a b < 0 ↔ 0 < compare b a
  trans : ∀ a ∈ xs, ∀ b ∈ xs, ∀ c ∈ xs, compare a b < 0 → compare b c < 0 → compare a c < 0

theorem Sorting.filter_or_perm {p q : α → Bool} {xs : List α}
    (h : ∀ a ∈ xs, p a = true → q a = false) :
    (xs.filter p ++ xs.filter q).Perm (xs.filter fun a => p a || q a) := by
  induction xs with
  | nil => exact .nil
  | cons a xs ih =>
    have ih := ih fun b hb => h b (.tail _ hb)
    cases hp : p a with
    | true => simpa [hp, h a List.mem_cons_self hp] using ih.cons a
    | false =>
      cases hq : q a with
      | true => simpa [hp, hq] using List.perm_middle.trans (ih.cons a)
      | false => simpa [hp, hq] using ih

namespace MemberOrder

open Node

variable {o : MemberOrder} {ms : List Node} {m n : Node}

-- ---------------------------------------------------------------------------
-- Comparison by a key
-- ---------------------------------------------------------------------------

/-- An order with the default ranks whose comparator orders the methods among some members up to
ties. Methods and elements of an annotation do not mix among them, and they stand in source order. -/
structure OrdersMethods (o : MemberOrder) (ms : List Node) : Prop where
  all : o.methodsOnly = false
  ranks : o.ranks = {}
  known : ∀ s ∈ ms.filterMap signature?, s ∈ o.known
  orders : OrdersUpToTies o.comparator.compare (ms.filterMap signature?)
  members : ∀ m ∈ ms, m.isMember = true
  unmixed : ∀ m ∈ ms, ∀ n ∈ ms, m.category? = some .annotationMembers → n.category? ≠ some .methods
  indices : ms.Pairwise fun m n => m.place.index < n.place.index

def methodLevel (o : MemberOrder) (ms : List Node) (n : Node) : ℕ :=
  (n.signature?.map (level o.comparator.compare (ms.filterMap signature?))).getD 0

/-- What members are ordered by: their group, then the comparator, then the place in the body. -/
def orderKey (o : MemberOrder) (ms : List Node) (n : Node) : ℕ ×ₗ ℕ ×ₗ ℤ :=
  toLex (group n, toLex (o.methodLevel ms n, n.place.index))

theorem orderKey_lt : o.orderKey ms m < o.orderKey ms n ↔
    group m < group n ∨ group m = group n ∧ (o.methodLevel ms m < o.methodLevel ms n ∨
      o.methodLevel ms m = o.methodLevel ms n ∧ m.place.index < n.place.index) :=
  sortKey_lt

theorem OrdersMethods.isSome_signature?_eq (h : OrdersMethods o ms) (hm : m ∈ ms) (hn : n ∈ ms)
    (hgroup : group m = group n) : m.signature?.isSome = n.signature?.isSome :=
  isSome_signature?_of_group_eq h.ranks (h.members m hm) (h.members n hn) (h.unmixed m hm n hn)
    (h.unmixed n hn m hm) hgroup

theorem OrdersMethods.verdict_iff (h : OrdersMethods o ms) (hm : m ∈ ms) (hn : n ∈ ms)
    (hsig : m.signature?.isSome = n.signature?.isSome) :
    (o.verdict m n < 0 ↔ o.methodLevel ms m < o.methodLevel ms n) ∧
      (0 < o.verdict m n ↔ o.methodLevel ms n < o.methodLevel ms m) := by
  unfold verdict methodLevel
  cases ha : m.signature? with
  | none =>
    have hb : n.signature? = none := by simpa [ha] using hsig.symm
    simp [hb]
  | some a =>
    obtain ⟨b, hb⟩ : ∃ b, n.signature? = some b := by
      simpa [ha, Option.isSome_iff_exists] using hsig.symm
    have ha' := List.mem_filterMap.mpr ⟨m, hm, ha⟩
    have hb' := List.mem_filterMap.mpr ⟨n, hn, hb⟩
    simpa [hb] using ⟨h.orders.neg_iff_level ha' hb', h.orders.pos_iff_level ha' hb'⟩

theorem OrdersMethods.compare_iff (h : OrdersMethods o ms) (hm : m ∈ ms) (hn : n ∈ ms) :
    (o.compare m n < 0 ↔ o.orderKey ms m < o.orderKey ms n) ∧
      (0 < o.compare m n ↔ o.orderKey ms n < o.orderKey ms m) := by
  have hall : o.compare m n = o.compareAll m n := by simp [MemberOrder.compare, h.all]
  have hknown {k : Node} (hk : k ∈ ms) (s : Signature) (hs : k.signature? = some s) : s ∈ o.known :=
    h.known s (List.mem_filterMap.mpr ⟨k, hk, hs⟩)
  rw [hall, orderKey_lt, orderKey_lt]
  rcases lt_trichotomy (group m) (group n) with hlt | heq | hgt
  · have := (compareAll_of_group_lt h.ranks (h.members m hm) (h.members n hn) hlt).1
    omega
  · obtain ⟨hneg, hpos⟩ := h.verdict_iff hm hn (h.isSome_signature?_eq hm hn heq)
    rw [compareAll_of_group_eq h.ranks (h.members m hm) (h.members n hn) (hknown hm) (hknown hn) heq,
      thenBy, sourceOrder]
    split <;> omega
  · have := (compareAll_of_group_lt h.ranks (h.members n hn) (h.members m hm) hgt).2
    omega

theorem OrdersMethods.eq_of_orderKey_eq (h : OrdersMethods o ms) (hm : m ∈ ms) (hn : n ∈ ms)
    (heq : o.orderKey ms m = o.orderKey ms n) : m = n := by
  have hnodup : (ms.map fun m => m.place.index).Nodup :=
    List.pairwise_map.mpr (h.indices.imp ne_of_lt)
  refine List.inj_on_of_nodup_map hnodup hm hn ?_
  exact congrArg (fun key => (ofLex (ofLex key).2).2) heq

theorem OrdersMethods.ordersStrictly (h : OrdersMethods o ms) : OrdersStrictly o.compare ms where
  eq_zero_iff m hm n hn := by
    obtain ⟨hneg, hpos⟩ := h.compare_iff hm hn
    constructor
    · intro hzero
      refine h.eq_of_orderKey_eq hm hn (le_antisymm ?_ ?_)
      · refine not_lt.mp fun hlt => ?_
        have := hpos.mpr hlt
        omega
      · refine not_lt.mp fun hlt => ?_
        have := hneg.mpr hlt
        omega
    · rintro rfl
      have := mt hneg.mp (lt_irrefl _)
      have := mt hpos.mp (lt_irrefl _)
      omega
  flip m hm n hn := (h.compare_iff hm hn).1.trans (h.compare_iff hn hm).2.symm
  trans a ha b hb c hc hab hbc :=
    (h.compare_iff ha hc).1.mpr
      (((h.compare_iff ha hb).1.mp hab).trans ((h.compare_iff hb hc).1.mp hbc))

-- ---------------------------------------------------------------------------
-- Sorting by the key
-- ---------------------------------------------------------------------------

theorem OrdersMethods.sort_orderKey_le (h : OrdersMethods o ms) :
    ((o.sort ms).map Prod.snd).Pairwise fun m n => o.orderKey ms m ≤ o.orderKey ms n := by
  refine List.pairwise_map.mpr ?_
  simp only [sort, h.all, Bool.false_eq_true, ↓reduceIte]
  refine Sorting.sort_key_le (fun x : Nat × Node => o.orderKey ms x.2) fun x hx y hy => ?_
  rw [decide_eq_true_iff]
  exact (h.compare_iff (mem_of_mem_tag hx) (mem_of_mem_tag hy)).1

theorem OrdersMethods.mergeSort_orderKey_le (h : OrdersMethods o ms) {ns : List Node}
    (hsub : ns.Sublist ms) (hgroup : ∀ m ∈ ns, group m = g) :
    (ns.mergeSort fun m n => o.verdict m n ≤ 0).Pairwise fun m n =>
      o.orderKey ms m ≤ o.orderKey ms n := by
  have hle : ∀ m ∈ ns, ∀ n ∈ ns, decide (o.verdict m n ≤ 0) =
      decide (byKey (o.methodLevel ms) m n ≤ 0) := by
    intro m hm n hn
    have hsig := h.isSome_signature?_eq (hsub.subset hm) (hsub.subset hn)
      ((hgroup m hm).trans (hgroup n hn).symm)
    have hpos := (h.verdict_iff (hsub.subset hm) (hsub.subset hn) hsig).2
    rw [decide_eq_decide, byKey]
    split
    · omega
    · split <;> omega
  have hsort : (ns.mergeSort fun m n => o.verdict m n ≤ 0) =
      Sorting.sortBy (byKey (o.methodLevel ms)) ns := by
    rw [Sorting.sortBy_eq_mergeSort (Weak.byKey _)]
    simpa using List.map_mergeSort (f := id) hle
  rw [hsort]
  have hstable := Sorting.sort_stable (fun m n => m.place.index < n.place.index)
    ((Weak.byKey (o.methodLevel ms)).consistent ns) (h.indices.sublist hsub)
  refine hstable.imp_of_mem fun {m n} hm hn hmn => ?_
  have hsame : group m = group n :=
    (hgroup m ((Sorting.sortBy_perm _ _).mem_iff.mp hm)).trans
      (hgroup n ((Sorting.sortBy_perm _ _).mem_iff.mp hn)).symm
  rw [← not_lt, orderKey_lt]
  simp only [Sorting.InOrder, decide_eq_true_eq, decide_eq_false_iff_not, byKey_neg] at hmn
  omega

/-- The members one group after the other, methods stably sorted within theirs. -/
def inGroups (o : MemberOrder) (ms : List Node) : List Node :=
  ms.filter (·.keepsOrder) ++
    (ms.filter (·.category? = some .constructors)).mergeSort (fun m n => o.verdict m n ≤ 0) ++
    (ms.filter (·.category? = some .methods)).mergeSort (fun m n => o.verdict m n ≤ 0) ++
    ms.filter (·.category? = some .annotationMembers)

theorem OrdersMethods.inGroups_perm (h : OrdersMethods o ms) : (o.inGroups ms).Perm ms := by
  have hkinds : ms.filter (fun n => n.keepsOrder || (n.category? = some .constructors ||
      (n.category? = some .methods || n.category? = some .annotationMembers))) = ms := by
    refine List.filter_eq_self.mpr fun n hn => ?_
    rcases group_cases h.ranks (h.members n hn) with
      ⟨-, hk, -⟩ | ⟨-, ⟨-, hc, -⟩ | ⟨-, hc | hc, -⟩⟩ <;> simp [*]
  have hkept (n : Node) (hk : n.keepsOrder = true) (c : Category) (hc : c.isMovable = true) :
      n.category? ≠ some c := by
    intro heq
    simp [keepsOrder_of_category heq, hc] at hk
  unfold inGroups
  rw [List.append_assoc, List.append_assoc]
  refine List.Perm.trans (((List.mergeSort_perm _ _).append
    ((List.mergeSort_perm _ _).append_right _)).append_left _) ?_
  conv_rhs => rw [← hkinds]
  refine ((((Sorting.filter_or_perm ?_).append_left _).trans (Sorting.filter_or_perm ?_)).append_left
    _).trans (Sorting.filter_or_perm ?_)
  · intro n _ hn
    simp [of_decide_eq_true hn]
  · intro n _ hn
    simp [of_decide_eq_true hn]
  · intro n _ hn
    simpa using ⟨hkept n hn .constructors rfl, hkept n hn .methods rfl,
      hkept n hn .annotationMembers rfl⟩

theorem orderKey_le_of_group_lt (h : group m < group n) : o.orderKey ms m ≤ o.orderKey ms n :=
  le_of_lt (orderKey_lt.mpr (.inl h))

theorem group_of_category {c : Category} (hc : n.category? = some c) (hmove : c.isMovable = true) :
    group n = if c = .constructors then 1 else 2 := by
  simp [group, keepsOrder_of_category hc, hmove, hc]

theorem OrdersMethods.filter_orderKey_le (h : OrdersMethods o ms) {p : Node → Bool}
    (hp : ∀ n ∈ ms, p n = true → n.signature? = none)
    (hgroup : ∀ n ∈ ms, p n = true → group n = g) :
    (ms.filter p).Pairwise fun m n => o.orderKey ms m ≤ o.orderKey ms n := by
  refine (h.indices.sublist List.filter_sublist).imp_of_mem fun {m n} hm hn hmn => ?_
  obtain ⟨hm, hpm⟩ := List.mem_filter.mp hm
  obtain ⟨hn, hpn⟩ := List.mem_filter.mp hn
  have hsame : group m = group n := (hgroup m hm hpm).trans (hgroup n hn hpn).symm
  have hlevel : o.methodLevel ms m = o.methodLevel ms n := by
    simp [methodLevel, hp m hm hpm, hp n hn hpn]
  exact le_of_lt (orderKey_lt.mpr (.inr ⟨hsame, .inr ⟨hlevel, hmn⟩⟩))

theorem OrdersMethods.inGroups_orderKey_le (h : OrdersMethods o ms) :
    (o.inGroups ms).Pairwise fun m n => o.orderKey ms m ≤ o.orderKey ms n := by
  have hkept {n : Node} (hn : n ∈ ms.filter (·.keepsOrder)) : group n = 0 := by
    simp [group, (List.mem_filter.mp hn).2]
  have hof {n : Node} {c : Category} (hn : n ∈ ms.filter (·.category? = some c)) :
      n ∈ ms ∧ n.category? = some c := by simpa using hn
  unfold inGroups
  refine List.pairwise_append.mpr ⟨List.pairwise_append.mpr ⟨List.pairwise_append.mpr
    ⟨?kept, ?constructors, ?keptConstructors⟩, ?methods, ?front⟩, ?elements, ?whole⟩
  case kept =>
    exact h.filter_orderKey_le (fun n _ hn => signature?_of_keepsOrder hn)
      fun n hmem hn => hkept (List.mem_filter.mpr ⟨hmem, hn⟩)
  case constructors =>
    exact h.mergeSort_orderKey_le List.filter_sublist fun m hm => group_of_category (hof hm).2 rfl
  case methods =>
    exact h.mergeSort_orderKey_le List.filter_sublist fun m hm => group_of_category (hof hm).2 rfl
  case elements =>
    exact h.filter_orderKey_le
      (fun n _ hn => signature?_of_annotationMember (of_decide_eq_true hn))
      fun n _ hn => group_of_category (of_decide_eq_true hn) rfl
  case keptConstructors =>
    intro m hm n hn
    refine orderKey_le_of_group_lt ?_
    rw [hkept hm, group_of_category (hof (List.mem_mergeSort.mp hn)).2 rfl]
    decide
  case front =>
    intro m hm n hn
    refine orderKey_le_of_group_lt ?_
    rw [group_of_category (hof (List.mem_mergeSort.mp hn)).2 rfl]
    rcases List.mem_append.mp hm with hm | hm
    · simp [hkept hm]
    · simp [group_of_category (hof (List.mem_mergeSort.mp hm)).2 rfl]
  case whole =>
    intro m hm n hn
    obtain ⟨hn, hcn⟩ := hof hn
    rcases List.mem_append.mp hm with hm | hm
    · refine orderKey_le_of_group_lt ?_
      rw [group_of_category hcn rfl]
      rcases List.mem_append.mp hm with hm | hm
      · simp [hkept hm]
      · simp [group_of_category (hof (List.mem_mergeSort.mp hm)).2 rfl]
    · obtain ⟨hm, hcm⟩ := hof (List.mem_mergeSort.mp hm)
      exact absurd hcm (h.unmixed n hn m hm hcn)

theorem OrdersMethods.sort_groups (h : OrdersMethods o ms) :
    (o.sort ms).map Prod.snd = o.inGroups ms := by
  refine List.Perm.eq_of_pairwise (fun m n hm hn hmn hnm => ?_) h.sort_orderKey_le
    h.inGroups_orderKey_le ((sort_snd_perm h.all ms).trans h.inGroups_perm.symm)
  exact h.eq_of_orderKey_eq ((sort_snd_perm h.all ms).mem_iff.mp hm)
    (h.inGroups_perm.mem_iff.mp hn) (le_antisymm hmn hnm)

end MemberOrder

namespace Sorter

open Node

variable {o : MemberOrder} {unit top : Node} {body : List Node}

/-- The members of a body that may move are strictly ordered, and sorting puts what keeps its order
in front, then the constructors, then the methods, then the elements of an annotation. -/
theorem sorted_in_groups (hread : Java.readUnit text = .ok unit)
    (htop : unit.topLevelType = .ok (some top)) (hbody : top.members = .ok body)
    (hall : o.methodsOnly = false) (hranks : o.ranks = {})
    (hknown : ∀ s ∈ body.filterMap signature?, s ∈ o.known)
    (horders : OrdersUpToTies o.comparator.compare (body.filterMap signature?)) :
    OrdersStrictly o.compare (body.filter (·.mayMove)) ∧
      (o.sort (body.filter (·.mayMove))).map Prod.snd =
        (body.filter (·.mayMove)).filter (·.keepsOrder) ++
        ((body.filter (·.mayMove)).filter (·.category? = some .constructors)).mergeSort
          (fun m n => o.verdict m n ≤ 0) ++
        ((body.filter (·.mayMove)).filter (·.category? = some .methods)).mergeSort
          (fun m n => o.verdict m n ≤ 0) ++
        (body.filter (·.mayMove)).filter (·.category? = some .annotationMembers) := by
  obtain ⟨r, others, rfl, rfl⟩ := Java.exists_reading hread htop hbody
  have hmem {m : Node} (hm : m ∈ r.members.filter (·.mayMove)) : m ∈ r.members :=
    List.mem_of_mem_filter hm
  have hsub : ∀ s ∈ (r.members.filter (·.mayMove)).filterMap signature?,
      s ∈ r.members.filterMap signature? :=
    (List.filter_sublist.filterMap _).subset
  have h : o.OrdersMethods (r.members.filter (·.mayMove)) :=
    { all := hall
      ranks := hranks
      known := fun s hs => hknown s (hsub s hs)
      orders :=
        ⟨fun a ha => horders.refl a (hsub a ha),
          fun a ha b hb => horders.flip a (hsub a ha) b (hsub b hb),
          fun a ha b hb => horders.total a (hsub a ha) b (hsub b hb),
          fun a ha b hb c hc => horders.trans a (hsub a ha) b (hsub b hb) c (hsub c hc)⟩
      members := fun m hm => r.isMember (hmem hm)
      unmixed := fun m hm n hn => r.unmixed_members (hmem hm) (hmem hn)
      indices := r.inBody.indices.sublist List.filter_sublist }
  exact ⟨h.ordersStrictly, h.sort_groups⟩

def allGroups : String :=
  "class A\x7bvoid b(int i)\x7b\x7dint x;A(int i)\x7b\x7dvoid a()\x7b\x7d\x7bx=1;\x7dclass T\x7b\x7d" ++
    "A()\x7b\x7dvoid c()\x7b\x7dstatic int y;void b(long i)\x7b\x7d\x7d"

def tiedRanks : MemberOrder :=
  { comparator := .ranks { entries :=
      [(⟨"A()"⟩, 1), (⟨"A(int)"⟩, 1), (⟨"b(int)"⟩, 2), (⟨"b(long)"⟩, 2), (⟨"a()"⟩, .bottom)] }
    known := [⟨"b(int)"⟩, ⟨"A(int)"⟩, ⟨"a()"⟩, ⟨"A()"⟩, ⟨"c()"⟩, ⟨"b(long)"⟩] }

theorem sorted_in_groups_allGroups :
    ∃ unit top body, Java.readUnit allGroups = .ok unit ∧ unit.topLevelType = .ok (some top) ∧
      top.members = .ok body ∧
      body.filterMap signature? = tiedRanks.known ∧
      OrdersUpToTies tiedRanks.comparator.compare tiedRanks.known ∧
      OrdersStrictly tiedRanks.compare (body.filter (·.mayMove)) ∧
      (tiedRanks.sort (body.filter (·.mayMove))).map (·.2.describe) = ["field_declaration:x",
        "initializer:4", "type_declaration:T", "field_declaration:y", "A(int)", "A()", "a()", "b(int)",
        "b(long)", "c()"] := by
  obtain ⟨unit, top, body, hread, htop, hbody, hsignatures, hsorted⟩ :=
    Java.exists_of_readBody? allGroups (fun unit body =>
      body.filterMap signature? = tiedRanks.known ∧
      (tiedRanks.sort (body.filter (·.mayMove))).map (·.2.describe) = ["field_declaration:x",
        "initializer:4", "type_declaration:T", "field_declaration:y", "A(int)", "A()", "a()", "b(int)",
        "b(long)", "c()"]) (by decide +kernel)
  have horders : OrdersUpToTies tiedRanks.comparator.compare tiedRanks.known :=
    ⟨by decide +kernel, by decide +kernel, by decide +kernel, by decide +kernel⟩
  obtain ⟨hstrict, -⟩ := sorted_in_groups hread htop hbody rfl rfl
    (fun s hs => hsignatures ▸ hs) (hsignatures.symm ▸ horders)
  exact ⟨unit, top, body, hread, htop, hbody, hsignatures, horders, hstrict, hsorted⟩

end Sorter

end CallerFirst
