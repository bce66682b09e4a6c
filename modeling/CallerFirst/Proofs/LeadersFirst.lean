import CallerFirst.Proofs.CallGraph.Below
import CallerFirst.Proofs.CallGraph.Extract
import CallerFirst.Proofs.InitialOrder
import CallerFirst.Proofs.WeakOrder

/-!
# Reachability first

Asked first, reachability decides all pairs of methods of which one leads to the other and not back.
Asking another criterion about the rest need not give an order: a method that is compared with the
two of such a pair by that criterion may stand behind the second and in front of the first.
`leadersFirst_iff`: sorting goes by reachability if and only if there is no such method.
-/

namespace CallerFirst

-- ---------------------------------------------------------------------------
-- One comparison, then another
-- ---------------------------------------------------------------------------

namespace Sorting

variable {first second : α → α → Int} {xs : List α}

def Unopposed (first second : α → α → Int) (xs : List α) : Prop :=
  ∀ a ∈ xs, ∀ b ∈ xs, ∀ c ∈ xs, first a b < 0 →
    thenBy first second a c < 0 ∨ thenBy first second c b < 0

/-- A comparison in front of an order up to ties need not be transitive itself. -/
theorem Unopposed.consistent (h : Unopposed first second xs) (hflip : Flips first)
    (hweak : Weak second) : Consistent (fun a b => decide (thenBy first second a b < 0)) xs := by
  have hboth := hflip.thenBy hweak.flip
  constructor
  · intro a _ b _ hab
    have := (hboth a b).mp (of_decide_eq_true hab)
    exact decide_eq_false (by omega)
  · intro a ha b hb c hc hba hcb
    have hba := of_decide_eq_false hba
    have hcb := of_decide_eq_false hcb
    refine decide_eq_false fun hca => ?_
    have hac : ¬thenBy first second a c < 0 := by
      have := (hboth c a).mp hca
      omega
    -- a verdict of the first comparison on any of the three pairs rules out the other two
    have hfirst_ca : ¬first c a < 0 := fun hf => (h c hc a ha b hb hf).elim hcb hba
    have hfirst_ab : ¬first a b < 0 := fun hf => (h a ha b hb c hc hf).elim hac hcb
    have hfirst_bc : ¬first b c < 0 := fun hf => (h b hb c hc a ha hf).elim hba hac
    have hsecond {x y : α} (hxy : ¬thenBy first second x y < 0) (hyx : ¬first y x < 0) :
        first x y = 0 ∧ 0 ≤ second x y := by
      have := hflip y x
      unfold thenBy at hxy
      split at hxy
      · omega
      · omega
    obtain ⟨-, hba⟩ := hsecond hba hfirst_ab
    obtain ⟨-, hcb⟩ := hsecond hcb hfirst_bc
    have hsecond_ca := hweak.trans a b c hba hcb
    unfold thenBy at hca
    split at hca <;> omega

end Sorting

namespace CallGraph

def leading (g : CallGraph Signature) (a b : Signature) : Int :=
  if g.Leads a b then -1 else if g.Leads b a then 1 else 0

theorem leading_neg {g : CallGraph Signature} : g.leading a b < 0 ↔ g.Leads a b := by
  unfold leading
  by_cases h : g.Leads a b
  · simp [h]
  · by_cases h' : g.Leads b a <;> simp [h, h']

theorem leading_flips (g : CallGraph Signature) : Flips g.leading := by
  intro a b
  unfold leading
  by_cases h : g.Leads a b
  · simp [h, h.asymm]
  · by_cases h' : g.Leads b a <;> simp [h, h']

end CallGraph

theorem MethodComparison.exists_leading (unit : Node) {g : CallGraph Signature} {p : Preferences}
    (hfirst : p.priorities.head? = some .reachability) (hc : p.isClustering = false) :
    ∃ weak, Weak weak ∧ ∀ a ∈ g.ids, ∀ b ∈ g.ids,
      (ofPreferences p unit g).comparator.compare a b = thenBy g.leading weak a b := by
  let nodes := g.workingList p unit
  obtain ⟨rest, hrest⟩ : ∃ rest, p.priorities = .reachability :: rest := by
    rw [← List.head?_eq_some_iff]
    exact hfirst
  obtain ⟨weak, hweak, hverdict⟩ := CallGraph.exists_weak_criteria p unit nodes g rest
  refine ⟨weak, hweak, fun a ha b hb => ?_⟩
  have ha : a ∈ nodes := CallGraph.mem_workingList.mpr ha
  have hb : b ∈ nodes := CallGraph.mem_workingList.mpr hb
  have hreach : (Comparator.reachability (g.reachability nodes)).compare a b = g.leading a b :=
    CallGraph.compareReach_eq (CallGraph.mem_below ha) (CallGraph.mem_below hb)
  have hstack : (g.methodStack p unit nodes).1 =
      .stack nodes (.reachability (g.reachability nodes) :: (g.criteria p unit nodes rest).1) := by
    simp only [CallGraph.methodStack, hrest, CallGraph.criteria, CallGraph.criterion]
  rw [comparator_ofPreferences hc, hstack, Comparator.compare, if_pos (by simp [ha, hb]),
    Comparator.firstVerdict_cons, thenBy, thenBy, hreach]
  split
  · rename_i hlevel
    exact hverdict a ha b hb fun _ => hreach.trans hlevel
  · rfl

-- ---------------------------------------------------------------------------
-- Members
-- ---------------------------------------------------------------------------

/-- The signature of the first leads to that of the second, but not back. -/
def Node.Leads (g : CallGraph Signature) (m n : Node) : Prop :=
  ∃ a ∈ m.signature?, ∃ b ∈ n.signature?, g.Leads a b

instance (g : CallGraph Signature) (m n : Node) : Decidable (m.Leads g n) :=
  inferInstanceAs (Decidable (∃ a ∈ m.signature?, ∃ b ∈ n.signature?, g.Leads a b))

namespace MemberOrder

variable {o : MemberOrder} {g : CallGraph Signature} {ms : List Node} {m n : Node}

def LeadersFirst (o : MemberOrder) (g : CallGraph Signature) (ms : List Node) : Prop :=
  ∀ (i j : Nat) (x y : Nat × Node), (o.sort ms)[i]? = some x → (o.sort ms)[j]? = some y →
    x.2.isPlainMethod = true → y.2.isPlainMethod = true → x.2.Leads g y.2 → i < j

/-- Where one plain method leads to another, any third is behind the one or in front of the other. -/
def Unopposed (o : MemberOrder) (g : CallGraph Signature) (ms : List Node) : Prop :=
  ∀ x ∈ ms, ∀ y ∈ ms, ∀ z ∈ ms, x.isPlainMethod = true → y.isPlainMethod = true →
    z.isPlainMethod = true → x.Leads g y → o.compareAll x z < 0 ∨ o.compareAll z y < 0

instance (o : MemberOrder) (g : CallGraph Signature) (ms : List Node) :
    Decidable (o.Unopposed g ms) :=
  inferInstanceAs (Decidable (∀ x ∈ ms, ∀ y ∈ ms, ∀ z ∈ ms, _))

/-- An order of members with the default ranks that asks reachability first, on members among which
methods and elements of an annotation do not mix. -/
structure AsksReach (o : MemberOrder) (g : CallGraph Signature)
    (second : Signature → Signature → Int) (ms : List Node) : Prop where
  all : o.methodsOnly = false
  ranks : o.ranks = {}
  weak : Weak second
  compare : ∀ a ∈ o.known, ∀ b ∈ o.known, o.comparator.compare a b = thenBy g.leading second a b
  known : ∀ m ∈ ms, ∀ s, m.signature? = some s → s ∈ o.known
  members : ∀ m ∈ ms, m.isMember = true
  unmixed : ∀ m ∈ ms, ∀ n ∈ ms, m.category? = some .annotationMembers → n.category? ≠ some .methods

def methodKey (n : Node) : Signature :=
  n.signature?.getD default

def leading (g : CallGraph Signature) (m n : Node) : Int :=
  g.leading (methodKey m) (methodKey n)

def behind (second : Signature → Signature → Int) : Node → Node → Int :=
  thenBy (fun m n => second (methodKey m) (methodKey n)) sourceOrder

theorem category_of_isPlainMethod (h : n.isPlainMethod = true) :
    n.category? = some .methods ∧ n.signature? = some (methodKey n) := by
  cases n with
  | method place header body =>
    exact ⟨by simpa [Node.isPlainMethod, Node.category?] using h, rfl⟩
  | _ => cases h

theorem isPlainMethod_of_category (h : n.category? = some .methods) : n.isPlainMethod = true := by
  cases n with
  | method place header body => simpa [Node.isPlainMethod, Node.category?] using h
  | initializer place isStatic body => cases isStatic <;> cases h
  | _ => cases h

theorem leads_iff (hm : m.isPlainMethod = true) (hn : n.isPlainMethod = true) :
    m.Leads g n ↔ leading g m n < 0 := by
  simp [Node.Leads, leading, (category_of_isPlainMethod hm).2, (category_of_isPlainMethod hn).2,
    CallGraph.leading_neg]

theorem AsksReach.compareAll_other (h : AsksReach o g second ms) (hm : m ∈ ms) (hn : n ∈ ms)
    (hplain : m.isPlainMethod = true) (hother : n.isPlainMethod = false) :
    ¬o.compareAll m n < 0 ∧ o.compareAll n m < 0 := by
  have hmethods := (category_of_isPlainMethod hplain).1
  obtain ⟨c, hc⟩ := Option.isSome_iff_exists.mp (h.members n hn)
  refine compareAll_of_rank_lt hc hmethods (.inr rfl) ?_
  have hne : c ≠ .methods := by
    rintro rfl
    rw [isPlainMethod_of_category hc] at hother
    cases hother
  have hne' : c ≠ .annotationMembers := by
    rintro rfl
    exact h.unmixed n hn m hm hc hmethods
  rw [h.ranks]
  cases c <;> simp_all [CategoryRanks.get]

theorem AsksReach.compareAll_methods (h : AsksReach o g second ms) (hm : m ∈ ms) (hn : n ∈ ms)
    (hpm : m.isPlainMethod = true) (hpn : n.isPlainMethod = true) :
    o.compareAll m n = thenBy (leading g) (behind second) m n := by
  obtain ⟨hcm, hsm⟩ := category_of_isPlainMethod hpm
  obtain ⟨hcn, hsn⟩ := category_of_isPlainMethod hpn
  have hkm := h.known m hm _ hsm
  have hkn := h.known n hn _ hsn
  have hkeeps : m.keepsOrder = false := Node.keepsOrder_of_category hcm
  have hrank : o.rank m = o.rank n := (rank_of_category hcm).trans (rank_of_category hcn).symm
  have hknows : o.knows (methodKey m) (methodKey n) = true := by simp [knows, hkm, hkn]
  simp only [compareAll, hkeeps, hrank, hsm, hsn, hknows, Bool.false_and, Bool.false_eq_true,
    ↓reduceIte, ne_eq, not_true_eq_false, h.compare _ hkm _ hkn]
  unfold behind thenBy leading
  split_ifs <;> rfl

theorem weak_sourceOrder : Weak sourceOrder := by
  constructor
  · intro m n
    unfold sourceOrder
    omega
  · intro m n k
    unfold sourceOrder
    omega

theorem AsksReach.sort_eq (h : AsksReach o g second ms) :
    o.sort ms = Sorting.sort (fun x y => decide (o.compareAll x.2 y.2 < 0)) (tag ms) := by
  simp [sort, sortTagged, Sorting.sortBy, MemberOrder.compare, h.all]

theorem AsksReach.consistent (h : AsksReach o g second ms) (hfree : o.Unopposed g ms) :
    Sorting.Consistent (fun m n => decide (o.compareAll m n < 0)) (ms.filter (·.isPlainMethod)) := by
  have hcompare : ∀ m ∈ ms.filter (·.isPlainMethod), ∀ n ∈ ms.filter (·.isPlainMethod),
      o.compareAll m n = thenBy (leading g) (behind second) m n := by
    intro m hm n hn
    obtain ⟨hm, hpm⟩ := List.mem_filter.mp hm
    obtain ⟨hn, hpn⟩ := List.mem_filter.mp hn
    exact h.compareAll_methods hm hn hpm hpn
  have hunopposed : Sorting.Unopposed (leading g) (behind second) (ms.filter (·.isPlainMethod)) := by
    intro x hx y hy z hz hxy
    rw [← hcompare x hx z hz, ← hcompare z hz y hy]
    obtain ⟨hx, hpx⟩ := List.mem_filter.mp hx
    obtain ⟨hy, hpy⟩ := List.mem_filter.mp hy
    obtain ⟨hz, hpz⟩ := List.mem_filter.mp hz
    exact hfree x hx y hy z hz hpx hpy hpz ((leads_iff hpx hpy).mpr hxy)
  refine (hunopposed.consistent (fun m n => g.leading_flips _ _)
    ((h.weak.comap methodKey).thenBy weak_sourceOrder)).congr fun m hm n hn => ?_
  rw [hcompare m hm n hn]

theorem AsksReach.leadersFirst (h : AsksReach o g second ms) (hfree : o.Unopposed g ms) :
    o.LeadersFirst g ms := by
  have hconsistent := h.consistent hfree
  have hplain {x : Nat × Node} (hx : x ∈ tag ms) (hp : x.2.isPlainMethod = true) :
      x.2 ∈ ms.filter (·.isPlainMethod) := List.mem_filter.mpr ⟨mem_of_mem_tag hx, hp⟩
  -- plain methods stand behind all others, in the order of the comparison
  have hsorted : (o.sort ms).Pairwise fun x y => x.2.isPlainMethod = true →
      y.2.isPlainMethod = true ∧ decide (o.compareAll y.2 x.2 < 0) = false := by
    rw [h.sort_eq]
    refine Sorting.sort_of_trans ?_ ?_ ?_
    · intro x hx y hy z hz hxy hyz hpx
      obtain ⟨hpy, hyx⟩ := hxy hpx
      obtain ⟨hpz, hzy⟩ := hyz hpy
      exact ⟨hpz, hconsistent.trans _ (hplain hx hpx) _ (hplain hy hpy) _ (hplain hz hpz) hyx hzy⟩
    · intro x hx y hy hlt hpx
      cases hpy : y.2.isPlainMethod with
      | true => exact ⟨rfl, hconsistent.asymm _ (hplain hx hpx) _ (hplain hy hpy) hlt⟩
      | false =>
        have hother := h.compareAll_other (mem_of_mem_tag hx) (mem_of_mem_tag hy) hpx hpy
        exact absurd (of_decide_eq_true hlt) hother.1
    · intro x hx y hy hle hpx
      cases hpy : y.2.isPlainMethod with
      | true => exact ⟨rfl, hle⟩
      | false =>
        have hother := h.compareAll_other (mem_of_mem_tag hx) (mem_of_mem_tag hy) hpx hpy
        exact absurd hother.2 (of_decide_eq_false hle)
  intro i j x y hi hj hpx hpy hlead
  have hmem {k : Nat} {z : Nat × Node} (hz : (o.sort ms)[k]? = some z) : z.2 ∈ ms :=
    mem_of_mem_tag ((sort_perm h.all).mem_iff.mp (List.mem_of_getElem? hz))
  have hxy := (leads_iff hpx hpy).mp hlead
  refine Sorting.lt_of_pairwise hsorted hi hj ?_ fun hyx => ?_
  · rintro rfl
    have := g.leading_flips (methodKey x.2) (methodKey x.2)
    unfold leading at hxy
    omega
  · have hneg : o.compareAll x.2 y.2 < 0 := by
      rw [h.compareAll_methods (hmem hi) (hmem hj) hpx hpy, thenBy, if_neg hxy.ne]
      exact hxy
    exact of_decide_eq_false (hyx hpy).2 hneg

/-- Three methods of which the third opposes the other two stay as they are if they stand in this
order, the one that is led to in front. -/
theorem AsksReach.unopposed (h : AsksReach o g second body)
    (hfirst : ∀ ms, (∀ m ∈ ms, m ∈ body) → o.LeadersFirst g ms) : o.Unopposed g body := by
  intro x hx y hy z hz hpx hpy hpz hlead
  by_contra hopposed
  obtain ⟨hxz, hzy⟩ := not_or.mp hopposed
  have hsub : ∀ m ∈ [y, z, x], m ∈ body := by
    intro m hm
    simp only [List.mem_cons, List.not_mem_nil, or_false] at hm
    rcases hm with rfl | rfl | rfl
    · exact hy
    · exact hz
    · exact hx
  have hsort : o.sort [y, z, x] = [(0, y), (1, z), (2, x)] := by
    simp only [sort, sortTagged, Sorting.sortBy, h.all, Bool.false_eq_true, ↓reduceIte]
    rw [Sorting.sort_of_short _ (by simp [tag])]
    simp [Sorting.leadingRun, Sorting.runFrom, tag, MemberOrder.compare, h.all, hxz, hzy]
  have hlt := hfirst [y, z, x] hsub 2 0 (2, x) (0, y) (by rw [hsort]; rfl) (by rw [hsort]; rfl) hpx
    hpy hlead
  cases hlt

-- ---------------------------------------------------------------------------
-- Signatures
-- ---------------------------------------------------------------------------

def UnopposedSignatures (o : MemberOrder) (g : CallGraph Signature) : Prop :=
  ∀ a ∈ o.known, ∀ b ∈ o.known, ∀ c ∈ o.known, a.isSynthetic = false → b.isSynthetic = false →
    c.isSynthetic = false → g.Leads a b →
      o.comparator.compare a c < 0 ∨ o.comparator.compare c b < 0

instance (o : MemberOrder) (g : CallGraph Signature) : Decidable (o.UnopposedSignatures g) :=
  inferInstanceAs (Decidable (∀ a ∈ o.known, ∀ b ∈ o.known, ∀ c ∈ o.known, _))

def SignaturesLead (o : MemberOrder) (g : CallGraph Signature) : Prop :=
  ∀ a ∈ o.known, ∀ b ∈ o.known, a.isSynthetic = false → b.isSynthetic = false → g.Leads a b →
    ∃ i j : Nat, o.orderedSignatures[i]? = some a ∧ o.orderedSignatures[j]? = some b ∧ i < j

theorem UnopposedSignatures.lead (h : o.UnopposedSignatures g) (hweak : Weak second)
    (hcompare : ∀ a ∈ o.known, ∀ b ∈ o.known,
      o.comparator.compare a b = thenBy g.leading second a b) : o.SignaturesLead g := by
  let methods := Sorting.sort (fun a b => decide (a < b)) (o.known.filter (!·.isSynthetic)).eraseDups
  have hmem {s : Signature} (hs : s ∈ methods) : s ∈ o.known ∧ s.isSynthetic = false := by
    rw [(Sorting.sort_perm _ _).mem_iff, List.mem_eraseDups, List.mem_filter] at hs
    simpa using hs
  have hunopposed : Sorting.Unopposed g.leading second methods := by
    intro a ha b hb c hc hab
    obtain ⟨ha, hsa⟩ := hmem ha
    obtain ⟨hb, hsb⟩ := hmem hb
    obtain ⟨hc, hsc⟩ := hmem hc
    rw [← hcompare a ha c hc, ← hcompare c hc b hb]
    exact h a ha b hb c hc hsa hsb hsc (CallGraph.leading_neg.mp hab)
  have hconsistent : Sorting.Consistent (fun a b => decide (o.comparator.compare a b < 0)) methods :=
    (hunopposed.consistent g.leading_flips hweak).congr fun a ha b hb => by
      rw [hcompare a (hmem ha).1 b (hmem hb).1]
  have hsorted : o.orderedSignatures.Pairwise fun a b =>
      decide (o.comparator.compare b a < 0) = false := Sorting.sort_pairwise hconsistent
  intro a ha b hb hsa hsb hab
  obtain ⟨i, hi⟩ := List.mem_iff_getElem?.mp (mem_orderedSignatures.mpr ⟨ha, hsa⟩)
  obtain ⟨j, hj⟩ := List.mem_iff_getElem?.mp (mem_orderedSignatures.mpr ⟨hb, hsb⟩)
  refine ⟨i, j, hi, hj, Sorting.lt_of_pairwise hsorted hi hj ?_ fun hle => ?_⟩
  · rintro rfl
    exact hab.2 hab.1
  · have hneg := CallGraph.leading_neg.mpr hab
    refine of_decide_eq_false hle ?_
    rw [hcompare a ha b hb, thenBy, if_neg hneg.ne]
    exact hneg

end MemberOrder

-- ---------------------------------------------------------------------------
-- Units
-- ---------------------------------------------------------------------------

namespace Sorter

variable {p : Preferences} {unit : Node}

/-- With reachability as the first priority, sorting members of a unit puts leaders first if and only
if no method opposes two others. Signatures are listed with leaders first if no signature does. -/
theorem leadersFirst_iff (hread : Java.readUnit text = .ok unit)
    (hfirst : p.priorities.head? = some .reachability) (hgetters : p.clusterGetterSetter = false)
    (hoverloads : p.clusterOverloaded = false) (hranks : p.categoryRanks = {}) :
    (∀ top body, unit.topLevelType = .ok (some top) → top.members = .ok body →
      ((∀ ms, (∀ m ∈ ms, m ∈ body) → (orderOf p unit).LeadersFirst (CallGraph.ofUnit unit) ms) ↔
        (orderOf p unit).Unopposed (CallGraph.ofUnit unit) body)) ∧
    ((orderOf p unit).UnopposedSignatures (CallGraph.ofUnit unit) →
      (orderOf p unit).SignaturesLead (CallGraph.ofUnit unit)) := by
  obtain ⟨second, hweak, hcompare⟩ :=
    MethodComparison.exists_leading unit (g := CallGraph.ofUnit unit) hfirst
      (by simp [Preferences.isClustering, hgetters, hoverloads])
  constructor
  · intro top body htop hbody
    obtain ⟨r, others, rfl, rfl⟩ := Java.exists_reading hread htop hbody
    have hasks (ms : List Node) (hms : ∀ m ∈ ms, m ∈ r.members) :
        MemberOrder.AsksReach (orderOf p (r.unit others)) (CallGraph.ofUnit (r.unit others)) second
          ms := by
      refine ⟨rfl, hranks, hweak, hcompare, ?_, ?_, ?_⟩
      · intro m hm s hs
        cases m with
        | method place header nodes =>
          cases hs
          exact CallGraph.mem_ids_ofUnit rfl rfl (hms _ hm)
        | _ => cases hs
      · exact fun m hm => r.isMember (hms m hm)
      · exact fun m hm n hn => r.unmixed_members (hms m hm) (hms n hn)
    constructor
    · exact (hasks r.members fun _ => id).unopposed
    · intro hfree ms hms
      refine (hasks ms hms).leadersFirst fun x hx y hy z hz => ?_
      exact hfree x (hms x hx) y (hms y hy) z (hms z hz)
  · exact fun hfree => hfree.lead hweak hcompare

def namedInTurn : String :=
  "class A{void d(){}void c(){d();}A(){d();}void b(){}int f=c();void a(){c();}}"

theorem leadersFirst_iff_namedInTurn :
    ∃ unit top body, Java.readUnit namedInTurn = .ok unit ∧ unit.topLevelType = .ok (some top) ∧
      top.members = .ok body ∧
      (orderOf { priorities := [.reachability, .lexical] } unit).LeadersFirst
        (CallGraph.ofUnit unit) body ∧
      (orderOf { priorities := [.reachability, .lexical] } unit).SignaturesLead
        (CallGraph.ofUnit unit) := by
  obtain ⟨unit, top, body, hread, htop, hbody, hfree, hsignatures⟩ :=
    Java.exists_of_readBody? namedInTurn (fun unit body =>
      (orderOf { priorities := [.reachability, .lexical] } unit).Unopposed
        (CallGraph.ofUnit unit) body ∧
      (orderOf { priorities := [.reachability, .lexical] } unit).UnopposedSignatures
        (CallGraph.ofUnit unit))
      (by decide +kernel)
  obtain ⟨hmembers, hlead⟩ := leadersFirst_iff (p := { priorities := [.reachability, .lexical] })
    hread rfl rfl rfl rfl
  exact ⟨unit, top, body, hread, htop, hbody,
    (hmembers top body htop hbody).mpr hfree body fun _ => id, hlead hsignatures⟩

/-- A method between a caller and its callee: by name it goes in front of the one and behind the
other, so the callee comes first. -/
theorem callee_in_front :
    ∃ unit top body,
      Java.readUnit "class A{void z(){a();}void m(){}void a(){}}" = .ok unit ∧
      unit.topLevelType = .ok (some top) ∧ top.members = .ok body ∧
      ¬(orderOf { priorities := [.reachability, .lexical] } unit).LeadersFirst
        (CallGraph.ofUnit unit) body ∧
      ¬(orderOf { priorities := [.reachability, .lexical] } unit).SignaturesLead
        (CallGraph.ofUnit unit) := by
  obtain ⟨unit, top, body, hread, htop, hbody, hsorted, hknown, hleads, hlisted⟩ :=
    Java.exists_of_readBody? "class A{void z(){a();}void m(){}void a(){}}" (fun unit body =>
      (∃ x ∈ ((orderOf { priorities := [.reachability, .lexical] } unit).sort body)[2]?,
        ∃ y ∈ ((orderOf { priorities := [.reachability, .lexical] } unit).sort body)[0]?,
          x.2.isPlainMethod = true ∧ y.2.isPlainMethod = true ∧
            x.2.Leads (CallGraph.ofUnit unit) y.2) ∧
      (CallGraph.ofUnit unit).ids = [⟨"z()"⟩, ⟨"a()"⟩, ⟨"m()"⟩] ∧
      (CallGraph.ofUnit unit).Leads ⟨"z()"⟩ ⟨"a()"⟩ ∧
      (orderOf { priorities := [.reachability, .lexical] } unit).orderedSignatures =
        [⟨"a()"⟩, ⟨"m()"⟩, ⟨"z()"⟩])
      (by decide +kernel)
  refine ⟨unit, top, body, hread, htop, hbody, ?_, ?_⟩
  · intro hfirst
    obtain ⟨x, hx, y, hy, hpx, hpy, hxy⟩ := hsorted
    cases hfirst 2 0 x y hx hy hpx hpy hxy
  · intro hlead
    have hids : (orderOf { priorities := [.reachability, .lexical] } unit).known =
        [⟨"z()"⟩, ⟨"a()"⟩, ⟨"m()"⟩] := hknown
    obtain ⟨i, j, -, hj, hij⟩ :=
      hlead ⟨"z()"⟩ (by simp [hids]) ⟨"a()"⟩ (by simp [hids]) (by decide) (by decide) hleads
    rw [hlisted] at hj
    rcases j with _ | _ | _ | j
    · cases hij
    all_goals simp at hj

end Sorter

end CallerFirst
