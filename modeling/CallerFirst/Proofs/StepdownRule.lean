import CallerFirst.Proofs.CallGraph.Extract
import CallerFirst.Proofs.Java.Unit
import CallerFirst.Proofs.MethodOrder
import CallerFirst.Proofs.WeakOrder

/-!
# The stepdown rule

`stepdown_rule`: in a unit without cycles of calls, ordered by calls first and with the default order
of categories, methods stand in front of the methods that they call, directly or over others. With
the default ranks the comparison of members goes by a key, so sorting is in order.
-/

namespace CallerFirst

namespace MemberOrder

variable {o : MemberOrder} {ordered : List Signature} {ms : List Node} {m n : Node}

/-- An order of members with the default ranks that goes by the places of known signatures, on
members among which methods and elements of an annotation do not mix. -/
structure GoesBy (o : MemberOrder) (ordered : List Signature) (ms : List Node) : Prop where
  all : o.methodsOnly = false
  ranks : o.ranks = {}
  compare : ∀ a ∈ o.known, ∀ b ∈ o.known, o.comparator.compare a b = RankTable.byPlace ordered a b
  known : ∀ m ∈ ms, ∀ s, m.signature? = some s → s ∈ o.known
  members : ∀ m ∈ ms, m.isMember = true
  unmixed : ∀ m ∈ ms, ∀ n ∈ ms, m.category? = some .annotationMembers → n.category? ≠ some .methods

/-- What members are ordered by: constructors behind what keeps its order, all else behind
constructors; then the place of the signature, then the place in the body. -/
def sortKey (ordered : List Signature) (n : Node) : ℕ ×ₗ ℕ ×ₗ ℤ :=
  toLex (if n.keepsOrder then 0 else if n.category? = some .constructors then 1 else 2,
    toLex ((n.signature?.map ordered.idxOf).getD 0, n.place.index))

theorem sortKey_lt {g₁ p₁ : ℕ} {i₁ : ℤ} {g₂ p₂ : ℕ} {i₂ : ℤ} :
    (toLex (g₁, toLex (p₁, i₁)) : ℕ ×ₗ ℕ ×ₗ ℤ) < toLex (g₂, toLex (p₂, i₂)) ↔
      g₁ < g₂ ∨ g₁ = g₂ ∧ (p₁ < p₂ ∨ p₁ = p₂ ∧ i₁ < i₂) := by
  simp [Prod.Lex.toLex_lt_toLex]

theorem rank_keepsOrder (hr : o.ranks = {}) (h : n.keepsOrder = true) :
    0 ≤ o.rank n ∧ o.rank n ≤ 4 := by
  cases n with
  | initializer place isStatic body =>
    cases isStatic <;> simp [rank, Node.category?, hr, CategoryRanks.get]
  | field | enumConstant | type => simp [rank, Node.category?, hr, CategoryRanks.get]
  | _ => cases h

theorem rank_movable (hr : o.ranks = {}) (hm : n.isMember = true) (h : n.keepsOrder = false) :
    (n.category? = some .constructors ∧ o.rank n = 5) ∨
      ((n.category? = some .methods ∨ n.category? = some .annotationMembers) ∧ o.rank n = 6) := by
  cases n with
  | method place header body =>
    cases hc : header.isConstructor <;> simp [rank, Node.category?, hr, hc, CategoryRanks.get]
  | annotationMember => simp [rank, Node.category?, hr, CategoryRanks.get]
  | unit | anonymousClass | call => cases hm
  | _ => cases h

theorem isSome_signature?_of_method
    (h : n.category? = some .constructors ∨ n.category? = some .methods) :
    n.signature?.isSome = true := by
  cases n with
  | method => rfl
  | initializer place isStatic body => cases isStatic <;> simp [Node.category?] at h
  | _ => simp [Node.category?] at h

theorem signature?_of_annotationMember (h : n.category? = some .annotationMembers) :
    n.signature? = none := by
  cases n with
  | method place header body => cases hc : header.isConstructor <;> simp [Node.category?, hc] at h
  | _ => rfl

theorem signature?_of_keepsOrder (h : n.keepsOrder = true) : n.signature? = none := by
  cases n with
  | method => cases h
  | _ => rfl

-- ---------------------------------------------------------------------------
-- Groups of members
-- ---------------------------------------------------------------------------

def group (n : Node) : ℕ :=
  if n.keepsOrder then 0 else if n.category? = some .constructors then 1 else 2

theorem group_cases (hr : o.ranks = {}) (hm : n.isMember = true) :
    (group n = 0 ∧ n.keepsOrder = true ∧ o.rank n ≤ 4) ∨
      (n.keepsOrder = false ∧
        (group n = 1 ∧ n.category? = some .constructors ∧ o.rank n = 5 ∨
          group n = 2 ∧ (n.category? = some .methods ∨ n.category? = some .annotationMembers) ∧
            o.rank n = 6)) := by
  unfold group
  cases hk : n.keepsOrder with
  | true => exact .inl ⟨rfl, rfl, (rank_keepsOrder hr hk).2⟩
  | false =>
    refine .inr ⟨rfl, ?_⟩
    rcases rank_movable hr hm hk with ⟨hc, hrank⟩ | ⟨hc, hrank⟩
    · exact .inl ⟨by simp [hc], hc, hrank⟩
    · exact .inr ⟨by rcases hc with hc | hc <;> simp [hc], hc, hrank⟩

theorem compareAll_of_group_lt (hr : o.ranks = {}) (hm : m.isMember = true) (hn : n.isMember = true)
    (h : group m < group n) : o.compareAll m n < 0 ∧ 0 < o.compareAll n m := by
  have hkn : n.keepsOrder = false := by
    rcases group_cases hr hn with ⟨hgn, -⟩ | ⟨hkn, -⟩
    · omega
    · exact hkn
  have hrank : o.rank m < o.rank n := by
    rcases group_cases hr hm with ⟨hgm, -, hrm⟩ | ⟨-, ⟨hgm, -, hrm⟩ | ⟨hgm, -, hrm⟩⟩ <;>
      rcases group_cases hr hn with ⟨hgn, -, hrn⟩ | ⟨-, ⟨hgn, -, hrn⟩ | ⟨hgn, -, hrn⟩⟩ <;> omega
  simp only [compareAll, hkn, Bool.and_false, Bool.false_and, Bool.false_eq_true, ↓reduceIte,
    if_pos hrank.ne, if_pos hrank.ne']
  omega

theorem keepsOrder_of_group_eq (hr : o.ranks = {}) (hm : m.isMember = true)
    (hn : n.isMember = true) (h : group m = group n) :
    m.keepsOrder = true ∧ n.keepsOrder = true ∨
      m.keepsOrder = false ∧ n.keepsOrder = false ∧ o.rank m = o.rank n := by
  rcases group_cases hr hm with ⟨hgm, hkm, hrm⟩ | ⟨hkm, ⟨hgm, -, hrm⟩ | ⟨hgm, -, hrm⟩⟩ <;>
    rcases group_cases hr hn with ⟨hgn, hkn, hrn⟩ | ⟨hkn, ⟨hgn, -, hrn⟩ | ⟨hgn, -, hrn⟩⟩ <;>
    simp [hkm, hkn] <;> omega

/-- In one group all have signatures or none has, if methods do not mix with elements of an
annotation. -/
theorem isSome_signature?_of_group_eq (hr : o.ranks = {}) (hm : m.isMember = true)
    (hn : n.isMember = true)
    (hmn : m.category? = some .annotationMembers → n.category? ≠ some .methods)
    (hnm : n.category? = some .annotationMembers → m.category? ≠ some .methods)
    (h : group m = group n) : m.signature?.isSome = n.signature?.isSome := by
  have hsome {k : Node} (hk : k.category? = some .constructors ∨ k.category? = some .methods) :
      k.signature?.isSome = true := isSome_signature?_of_method hk
  have hnone {k : Node} (hk : k.category? = some .annotationMembers) :
      k.signature?.isSome = false := by simp [signature?_of_annotationMember hk]
  rcases group_cases hr hm with ⟨hgm, hkm, -⟩ | ⟨-, ⟨hgm, hcm, -⟩ | ⟨hgm, hcm, -⟩⟩ <;>
    rcases group_cases hr hn with ⟨hgn, hkn, -⟩ | ⟨-, ⟨hgn, hcn, -⟩ | ⟨hgn, hcn, -⟩⟩ <;> try omega
  · rw [signature?_of_keepsOrder hkm, signature?_of_keepsOrder hkn]
  · rw [hsome (.inl hcm), hsome (.inl hcn)]
  · rcases hcm with hcm | hcm <;> rcases hcn with hcn | hcn
    · rw [hsome (.inr hcm), hsome (.inr hcn)]
    · exact absurd hcm (hnm hcn)
    · exact absurd hcn (hmn hcm)
    · rw [hnone hcm, hnone hcn]

-- ---------------------------------------------------------------------------
-- Comparison by a key
-- ---------------------------------------------------------------------------

def verdict (o : MemberOrder) (m n : Node) : Int :=
  match m.signature?, n.signature? with
  | some a, some b => o.comparator.compare a b
  | _, _ => 0

theorem compareAll_of_group_eq (hr : o.ranks = {}) (hm : m.isMember = true) (hn : n.isMember = true)
    (hknown : ∀ s, m.signature? = some s → s ∈ o.known)
    (hknown' : ∀ s, n.signature? = some s → s ∈ o.known) (h : group m = group n) :
    o.compareAll m n = thenBy o.verdict sourceOrder m n := by
  unfold compareAll thenBy verdict
  rcases keepsOrder_of_group_eq hr hm hn h with ⟨hkm, hkn⟩ | ⟨hkm, -, hrank⟩
  · rw [if_pos (by simp [hkm, hkn]), signature?_of_keepsOrder hkm]
    simp
  · rw [if_neg (by simp [hkm]), if_neg (by simp [hrank])]
    cases ha : m.signature? with
    | none => simp
    | some a =>
      cases hb : n.signature? with
      | none => simp
      | some b =>
        have hknows : o.knows a b = true := by simp [knows, hknown a ha, hknown' b hb]
        simp only [hknows, ↓reduceIte]

theorem byPlace_then_neg {i j : Int} :
    (if RankTable.byPlace ordered a b = 0 then i - j else RankTable.byPlace ordered a b) < 0 ↔
      ordered.idxOf a < ordered.idxOf b ∨ ordered.idxOf a = ordered.idxOf b ∧ i < j := by
  unfold RankTable.byPlace
  by_cases hlt : ordered.idxOf a < ordered.idxOf b
  · simp [hlt]
  · by_cases hgt : ordered.idxOf b < ordered.idxOf a
    · simp [hlt, hgt]
      omega
    · simp [hlt, hgt]
      omega

theorem GoesBy.compareAll_neg_of_group_eq (h : GoesBy o ordered ms) (hm : m ∈ ms) (hn : n ∈ ms)
    (hgroup : group m = group n) :
    o.compareAll m n < 0 ↔
      (m.signature?.map ordered.idxOf).getD 0 < (n.signature?.map ordered.idxOf).getD 0 ∨
        (m.signature?.map ordered.idxOf).getD 0 = (n.signature?.map ordered.idxOf).getD 0 ∧
          m.place.index < n.place.index := by
  have hsig := isSome_signature?_of_group_eq h.ranks (h.members m hm) (h.members n hn)
    (h.unmixed m hm n hn) (h.unmixed n hn m hm) hgroup
  rw [compareAll_of_group_eq h.ranks (h.members m hm) (h.members n hn) (h.known m hm) (h.known n hn)
    hgroup, thenBy, verdict]
  cases hma : m.signature? with
  | none =>
    have hnb : n.signature? = none := by simpa [hma] using hsig.symm
    simp [hnb, sourceOrder]
  | some a =>
    obtain ⟨b, hnb⟩ : ∃ b, n.signature? = some b := by
      simpa [hma, Option.isSome_iff_exists] using hsig.symm
    have hcompare := h.compare a (h.known m hm a hma) b (h.known n hn b hnb)
    simpa [hnb, hcompare, sourceOrder] using byPlace_then_neg

theorem GoesBy.compareAll_neg_iff (h : GoesBy o ordered ms) (hm : m ∈ ms) (hn : n ∈ ms) :
    o.compareAll m n < 0 ↔ sortKey ordered m < sortKey ordered n := by
  unfold sortKey
  rw [sortKey_lt]
  change _ ↔ group m < group n ∨ group m = group n ∧ _
  rcases lt_trichotomy (group m) (group n) with hlt | heq | hgt
  · have := (compareAll_of_group_lt h.ranks (h.members m hm) (h.members n hn) hlt).1
    omega
  · rw [h.compareAll_neg_of_group_eq hm hn heq]
    omega
  · have := (compareAll_of_group_lt h.ranks (h.members n hn) (h.members m hm) hgt).2
    omega

theorem GoesBy.sort_key_le (h : GoesBy o ordered ms) :
    (o.sort ms).Pairwise fun x y => sortKey ordered x.2 ≤ sortKey ordered y.2 := by
  simp only [sort, h.all, Bool.false_eq_true, ↓reduceIte]
  refine Sorting.sort_key_le (fun x : Nat × Node => sortKey ordered x.2) fun x hx y hy => ?_
  simpa [MemberOrder.compare, h.all] using h.compareAll_neg_iff (mem_of_mem_tag hx) (mem_of_mem_tag hy)

theorem sortKey_lt_of_idxOf_lt (hm : m.isPlainMethod = true) (hn : n.isPlainMethod = true)
    (ha : m.signature? = some a) (hb : n.signature? = some b)
    (hab : ordered.idxOf a < ordered.idxOf b) : sortKey ordered m < sortKey ordered n := by
  have hgroup {k : Node} (hk : k.isPlainMethod = true) :
      k.keepsOrder = false ∧ k.category? = some .methods := by
    cases k with
    | method place header body =>
      exact ⟨rfl, by simpa [Node.isPlainMethod, Node.category?] using hk⟩
    | _ => cases hk
  unfold sortKey
  rw [sortKey_lt]
  obtain ⟨hkm, hcm⟩ := hgroup hm
  obtain ⟨hkn, hcn⟩ := hgroup hn
  simp [hkm, hkn, hcm, hcn, ha, hb, hab]

-- ---------------------------------------------------------------------------
-- The rule
-- ---------------------------------------------------------------------------

/-- Sorting keeps the members, and puts every plain method in front of those with other signatures
that it calls, directly or over others. -/
structure CallersFirst (o : MemberOrder) (g : CallGraph Signature) (ms : List Node) : Prop where
  perm : (o.sort ms).Perm (tag ms)
  before : ∀ (i j : Nat) (x y : Nat × Node) (a b : Signature),
    (o.sort ms)[i]? = some x → (o.sort ms)[j]? = some y →
    x.2.isPlainMethod = true → y.2.isPlainMethod = true →
    x.2.signature? = some a → y.2.signature? = some b → a ≠ b → g.Reaches a b → i < j

/-- The signatures of methods are listed once each, and with each caller stand behind it all the
others that it calls, directly or over others. -/
structure SignaturesFirst (o : MemberOrder) (g : CallGraph Signature) : Prop where
  nodup : o.orderedSignatures.Nodup
  mem_iff : ∀ s, s ∈ o.orderedSignatures ↔ s ∈ g.ids ∧ s.isSynthetic = false
  before : ∀ a ∈ g.ids, a.isSynthetic = false →
    ∀ b, b.isSynthetic = false → a ≠ b → g.Reaches a b →
      ∃ i j : Nat, o.orderedSignatures[i]? = some a ∧ o.orderedSignatures[j]? = some b ∧ i < j

theorem GoesBy.callersFirst {g : CallGraph Signature} (h : GoesBy o ordered ms)
    (hs : g.Stepdown ordered) (hknown : ∀ s ∈ o.known, s ∈ ordered) : o.CallersFirst g ms := by
  refine ⟨sort_perm h.all, fun i j x y a b hi hj hx hy ha hb hne hab => ?_⟩
  have hmem {k : Nat} {z : Nat × Node} (hz : (o.sort ms)[k]? = some z) : z.2 ∈ ms :=
    mem_of_mem_tag ((sort_perm h.all).mem_iff.mp (List.mem_of_getElem? hz))
  have hplace : ordered.idxOf a < ordered.idxOf b :=
    hs.idxOf_lt (hknown a (h.known _ (hmem hi) a ha)) (hknown b (h.known _ (hmem hj) b hb)) hne hab
  have hkey := sortKey_lt_of_idxOf_lt hx hy ha hb hplace
  refine Sorting.lt_of_pairwise h.sort_key_le hi hj ?_ (not_le_of_gt hkey)
  rintro rfl
  exact hne (Option.some.inj (ha.symm.trans hb))

end MemberOrder

namespace Sorter

variable {p : Preferences} {unit : Node}

theorem stepdown_rule (hread : Java.readUnit text = .ok unit)
    (hacyclic : (CallGraph.ofUnit unit).Acyclic)
    (hfirst : p.priorities.head? = some .invocation) (hrespect : p.respectBeforeAfter = true)
    (hgetters : p.clusterGetterSetter = false) (hoverloads : p.clusterOverloaded = false)
    (hranks : p.categoryRanks = {}) :
    (∀ top body ms, unit.topLevelType = .ok (some top) → top.members = .ok body →
      (∀ m ∈ ms, m ∈ body) → (orderOf p unit).CallersFirst (CallGraph.ofUnit unit) ms) ∧
    (orderOf p unit).SignaturesFirst (CallGraph.ofUnit unit) := by
  have hwf := CallGraph.ofUnit_wellFormed unit
  obtain ⟨ordered, hstepdown, hids, hcompare⟩ :=
    MethodComparison.exists_stepdown_order unit hwf.nodup hacyclic hfirst hrespect
      (by simp [Preferences.isClustering, hgetters, hoverloads])
  constructor
  · intro top body ms htop hbody hms
    obtain ⟨r, others, rfl, rfl⟩ := Java.exists_reading hread htop hbody
    refine MemberOrder.GoesBy.callersFirst ⟨rfl, hranks, hcompare, ?_, ?_, ?_⟩ hstepdown hids
    · intro m hm s hs
      cases m with
      | method place header nodes =>
        cases hs
        exact CallGraph.mem_ids_ofUnit rfl rfl (hms _ hm)
      | _ => cases hs
    · exact fun m hm => r.isMember (hms m hm)
    · exact fun m hm n hn => r.unmixed_members (hms m hm) (hms n hn)
  · have hsorted := MemberOrder.orderedSignatures_stepdown (o := orderOf p unit) hstepdown hids
      hcompare
    refine ⟨MemberOrder.nodup_orderedSignatures, fun s => MemberOrder.mem_orderedSignatures, ?_⟩
    intro a ha hsa b hsb hne hab
    have hb : b ∈ (CallGraph.ofUnit unit).ids := hwf.mem_ids_of_reaches ha hab
    have hplace {s : Signature} (hs : s ∈ (CallGraph.ofUnit unit).ids) (hm : s.isSynthetic = false) :
        ∃ i : Nat, (orderOf p unit).orderedSignatures[i]? = some s :=
      List.mem_iff_getElem?.mp (MemberOrder.mem_orderedSignatures.mpr ⟨hs, hm⟩)
    obtain ⟨i, hi⟩ := hplace ha hsa
    obtain ⟨j, hj⟩ := hplace hb hsb
    exact ⟨i, j, hi, hj, Sorting.lt_of_pairwise hsorted hi hj hne fun h => h hab⟩

def backwards : String :=
  "class A{int f=c();void c(){}void b(int i){c();b(i);}void a(){b(1);}A(){a();}}"

theorem stepdown_rule_backwards :
    ∃ unit top body, Java.readUnit backwards = .ok unit ∧ unit.topLevelType = .ok (some top) ∧
      top.members = .ok body ∧ (CallGraph.ofUnit unit).Acyclic ∧
      (body.filterMap (·.signature?)).length = 4 ∧
      (orderOf {} unit).CallersFirst (CallGraph.ofUnit unit) body ∧
      (orderOf {} unit).SignaturesFirst (CallGraph.ofUnit unit) := by
  obtain ⟨unit, top, body, hread, htop, hbody, hacyclic, hlength⟩ :=
    Java.exists_of_readBody? backwards (fun unit body =>
      (CallGraph.ofUnit unit).Acyclic ∧ (body.filterMap (·.signature?)).length = 4)
      (by decide +kernel)
  obtain ⟨hmembers, hsignatures⟩ := stepdown_rule (p := {}) hread hacyclic rfl rfl rfl rfl rfl
  exact ⟨unit, top, body, hread, htop, hbody, hacyclic, hlength,
    hmembers top body body htop hbody fun _ => id, hsignatures⟩

end Sorter

end CallerFirst
