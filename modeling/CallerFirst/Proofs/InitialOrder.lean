import CallerFirst.Proofs.Java.Unit
import CallerFirst.Proofs.MethodOrder
import CallerFirst.Proofs.StableSorting
import Mathlib.Data.List.Sort

/-!
# Members that keep their order

Fields, initializer blocks and types are compared by their places with each other, but by rank with
methods, so the comparison need not be consistent. They keep their order if the ranks put no category
of methods between two of theirs, nor, where runs are merged, at the level of one of them.
-/

namespace CallerFirst

namespace Sorting

variable {α : Type} {lt : α → α → Bool} {xs : List α} {before : α → α → Prop}

/-- Elements called `high` stand behind all others, and `kept` elements stand in order. -/
def Keeps (before : α → α → Prop) (high kept : α → Prop) (a b : α) : Prop :=
  (high a → high b) ∧ (kept a → kept b → before a b)

/-- A later element goes in front of a high one unless it is high itself, and if it is high or kept it
goes in front of nothing else. -/
structure Separates (lt : α → α → Bool) (before : α → α → Prop) (high kept : α → Prop)
    (xs : List α) : Prop where
  disjoint : ∀ a ∈ xs, kept a → ¬high a
  lt_of_high : ∀ a ∈ xs, ∀ b ∈ xs, before a b → high a → ¬high b → lt b a = true
  high_of_lt : ∀ a ∈ xs, ∀ b ∈ xs, before a b → lt b a = true → high b ∨ kept b → high a

variable {high kept : α → Prop}

theorem Separates.high_of_not_lt (h : Separates lt before high kept xs) (ha : a ∈ xs) (hb : b ∈ xs)
    (hbefore : before a b) (hle : lt b a = false) (hhigh : high a) : high b := by
  by_contra hnot
  simp [h.lt_of_high a ha b hb hbefore hhigh hnot] at hle

theorem insert_keeps {ys : List α} {a : α} (h : Separates lt before high kept xs)
    (hys : ∀ y ∈ ys, y ∈ xs) (ha : a ∈ xs) (hbefore : ∀ y ∈ ys, before y a)
    (hs : ys.Pairwise (Keeps before high kept)) :
    (insert lt ys a).Pairwise (Keeps before high kept) := by
  obtain ⟨front, back, rfl, heq, hlast, hhead⟩ := insert_spec lt ys a
  rw [heq]
  obtain ⟨hfront, hback, hcross⟩ := List.pairwise_append.mp hs
  -- nothing in front is high unless the new element is
  have hleft : ∀ x ∈ front, high x → high a := by
    intro x hx hhx
    obtain ⟨init, z, rfl⟩ := (List.eq_nil_or_concat' front).resolve_left (List.ne_nil_of_mem hx)
    have hhz : high z := by
      rcases List.mem_append.mp hx with hx | hx
      · exact ((List.pairwise_append.mp hfront).2.2 x hx z (by simp)).1 hhx
      · exact List.mem_singleton.mp hx ▸ hhx
    exact h.high_of_not_lt (hys z (by simp)) ha (hbefore z (by simp)) (hlast z (by simp)) hhz
  -- everything behind is high if the new element is high or kept
  have hright : high a ∨ kept a → ∀ y ∈ back, high y := by
    intro hka y hy
    cases back with
    | nil => cases hy
    | cons z back =>
      have hhz : high z :=
        h.high_of_lt z (hys z (by simp)) a ha (hbefore z (by simp)) (hhead z rfl) hka
      rcases List.mem_cons.mp hy with rfl | hy
      · exact hhz
      · exact ((List.pairwise_cons.mp hback).1 y hy).1 hhz
  refine List.pairwise_append.mpr ⟨hfront, List.pairwise_cons.mpr ⟨fun y hy => ?_, hback⟩, ?_⟩
  · refine ⟨fun hha => hright (.inl hha) y hy, fun hka hky => ?_⟩
    exact absurd (hright (.inr hka) y hy) (h.disjoint y (hys y (by simp [hy])) hky)
  · intro x hx y hy
    rcases List.mem_cons.mp hy with rfl | hy
    · exact ⟨hleft x hx, fun _ _ => hbefore x (by simp [hx])⟩
    · exact hcross x hx y hy

theorem leadingRun_keeps (h : Separates lt before high kept xs) (hb : xs.Pairwise before)
    (htrans : ∀ a b c, before a b → before b c → before a c) :
    (leadingRun lt xs).1.Pairwise (Keeps before high kept) := by
  have hmem {x : α} (hx : x ∈ (leadingRun lt xs).1) : x ∈ xs :=
    (leadingRun_perm lt xs).mem_iff.mp (List.mem_append_left _ hx)
  rcases leadingRun_cases lt hb with hdown | hup
  · -- going down, all that stand behind a high or kept element are high
    have hchain := hdown.imp_of_mem_imp fun x y hx hy hxy =>
      h.high_of_lt y (hmem hy) x (hmem hx) hxy.2 hxy.1
    have hbehind := pairwise_of_isChain hchain fun _ _ _ _ _ _ hxy hyz hx => hyz (.inl (hxy hx))
    refine hbehind.imp_of_mem fun {x y} hx hy hxy => ⟨fun hh => hxy (.inl hh), fun hkx hky => ?_⟩
    exact absurd (hxy (.inr hkx)) (h.disjoint y (hmem hy) hky)
  · have hchain : (leadingRun lt xs).1.IsChain fun x y => (high x → high y) ∧ before x y :=
      hup.imp_of_mem_imp fun x y hx hy hxy =>
        ⟨h.high_of_not_lt (hmem hx) (hmem hy) hxy.2 hxy.1, hxy.2⟩
    have hpairs := pairwise_of_isChain hchain fun x _ y _ z _ hxy hyz =>
      ⟨fun hx => hyz.1 (hxy.1 hx), htrans x y z hxy.2 hyz.2⟩
    exact hpairs.imp fun hxy => ⟨hxy.1, fun _ _ => hxy.2⟩

theorem sort_keeps_of_short (h : Separates lt before high kept xs) (hshort : xs.length < 64)
    (hb : xs.Pairwise before) (htrans : ∀ a b c, before a b → before b c → before a c) :
    (sort lt xs).Pairwise (Keeps before high kept) :=
  sort_induction hshort hb (leadingRun_keeps h hb htrans) fun _ _ hys ha hbefore hs =>
    insert_keeps h hys ha hbefore hs

/-- Merging compares elements that are far apart, so each must tell whether it stays behind a kept
one. -/
theorem sort_keeps (h : Separates lt before high kept xs) (hb : xs.Pairwise before)
    (htrans : ∀ a b c, before a b → before b c → before a c)
    (hstays : ∀ a ∈ xs, ∀ b ∈ xs, before a b → kept a → lt b a = false → high b ∨ kept b) :
    (sort lt xs).Pairwise (Keeps before high kept) := by
  have hmem {x : α} (hx : x ∈ sort lt xs) : x ∈ xs := (sort_perm lt xs).mem_iff.mp hx
  have hsorted : (sort lt xs).Pairwise fun x y =>
      (high x → high y) ∧ (kept x → high y ∨ kept y ∧ before x y) := by
    refine sort_of_fits hb (fun x _ y _ z _ hxy hyz => ⟨fun hx => hyz.1 (hxy.1 hx), fun hx => ?_⟩)
      fun x hx y hy hxy => ?_
    · rcases hxy.2 hx with hy | ⟨hy, hbefore⟩
      · exact .inl (hyz.1 hy)
      · exact (hyz.2 hy).imp_right fun hz => ⟨hz.1, htrans x y z hbefore hz.2⟩
    · rcases hxy with ⟨hlt, hbefore⟩ | ⟨hle, hbefore⟩
      · have hhigh := h.high_of_lt y hy x hx hbefore hlt
        exact ⟨fun hh => hhigh (.inl hh), fun hk => .inl (hhigh (.inr hk))⟩
      · refine ⟨h.high_of_not_lt hx hy hbefore hle, fun hk => ?_⟩
        exact (hstays x hx y hy hbefore hk hle).imp_right fun hky => ⟨hky, hbefore⟩
  refine hsorted.imp_of_mem fun {x y} _ hy hxy => ⟨hxy.1, fun hkx hky => ?_⟩
  exact ((hxy.2 hkx).resolve_left (h.disjoint y (hmem hy) hky)).2

end Sorting

-- ---------------------------------------------------------------------------
-- Categories
-- ---------------------------------------------------------------------------

namespace Category

/-- Members that are placed by rank among all others. -/
def isMovable : Category → Bool
  | constructors | methods | annotationMembers => true
  | enumConstants | types | staticInitializers | fields | initializers => false

/-- Members whose order is the order of initialization. -/
def isInitial : Category → Bool
  | types | staticInitializers | fields | initializers => true
  | enumConstants | constructors | methods | annotationMembers => false

theorem cases_kind (c : Category) :
    (c.isMovable = true ∧ c.isInitial = false) ∨ (c.isMovable = false ∧ c.isInitial = true) ∨
      (c.isMovable = false ∧ c = enumConstants) := by
  cases c <;> simp [isMovable, isInitial]

theorem isMovable_of_isInitial {c : Category} (h : c.isInitial = true) : c.isMovable = false := by
  rcases c.cases_kind with ⟨-, hc⟩ | ⟨hc, -⟩ | ⟨hc, -⟩
  · rw [h] at hc
    cases hc
  · exact hc
  · exact hc

end Category

/-- The ranks put category `k` of methods behind `x` and not behind `z`. Enum constants stand in
front of all other members, so with one of the same rank nothing goes wrong. -/
def CategoryRanks.Splits (r : CategoryRanks) (k x z : Category) : Prop :=
  k.isMovable = true ∧ x.isInitial = true ∧ r.get x < r.get k ∧
    (z.isInitial = true ∧ r.get k ≤ r.get z ∨ z = .enumConstants ∧ r.get k < r.get z)

/-- Methods of category `k` and members of category `x` are compared by their places. -/
def CategoryRanks.Levels (r : CategoryRanks) (k x : Category) : Prop :=
  k.isMovable = true ∧ x.isInitial = true ∧ r.get x = r.get k

namespace Node

variable {n : Node}

def isInitial (n : Node) : Bool :=
  n.category?.any (·.isInitial)

theorem keepsOrder_of_category (h : n.category? = some c) : n.keepsOrder = !c.isMovable := by
  cases n with
  | method place header body =>
    cases hc : header.isConstructor <;> simp [category?, hc] at h <;> subst h <;> rfl
  | initializer place isStatic body =>
    cases isStatic <;> simp [category?] at h <;> subst h <;> rfl
  | unit | anonymousClass | call => cases h
  | _ => cases h; rfl

theorem signature?_of_not_movable (h : n.category? = some c) (hc : c.isMovable = false) :
    n.signature? = none := by
  cases n with
  | method place header body =>
    cases hh : header.isConstructor <;> simp [category?, hh] at h <;> subst h <;> cases hc
  | _ => rfl

end Node

-- ---------------------------------------------------------------------------
-- Comparisons of an earlier and a later member
-- ---------------------------------------------------------------------------

namespace MemberOrder

variable {o : MemberOrder} {ms : List Node} {m n : Node}

theorem rank_of_category (h : n.category? = some c) : o.rank n = o.ranks.get c := by
  simp [rank, h]

theorem compareAll_of_not_movable (hm : m.category? = some c) (hn : n.category? = some d)
    (hc : c.isMovable = false) (hd : d.isMovable = false) : o.compareAll n m = sourceOrder n m := by
  simp [compareAll, Node.keepsOrder_of_category hm, Node.keepsOrder_of_category hn, hc, hd]

theorem compareAll_neg_iff (hm : m.category? = some c) (hn : n.category? = some d)
    (hcd : c.isMovable ≠ d.isMovable) (hindex : m.place.index < n.place.index) :
    o.compareAll n m < 0 ↔ o.ranks.get d < o.ranks.get c := by
  have hkeeps : (n.keepsOrder && m.keepsOrder) = false := by
    rw [Node.keepsOrder_of_category hm, Node.keepsOrder_of_category hn]
    cases hc : c.isMovable <;> cases hd : d.isMovable <;> simp_all
  have hsource : 0 < sourceOrder n m := by
    unfold sourceOrder
    omega
  have hnone : n.signature? = none ∨ m.signature? = none := by
    cases hd : d.isMovable with
    | false => exact .inl (Node.signature?_of_not_movable hn hd)
    | true => exact .inr (Node.signature?_of_not_movable hm (by simpa [hd] using hcd))
  unfold compareAll
  rw [hkeeps, rank_of_category hm, rank_of_category hn]
  by_cases heq : o.ranks.get d = o.ranks.get c
  · simp only [heq, Bool.false_eq_true, ↓reduceIte, ne_eq, not_true_eq_false]
    split
    · rename_i hna hmb
      rcases hnone with h | h
      · simp [h] at hna
      · simp [h] at hmb
    · omega
  · simp only [heq, Bool.false_eq_true, ↓reduceIte, ne_eq, not_false_eq_true]
    omega

theorem compareAll_of_rank_lt (hm : m.category? = some c) (hn : n.category? = some d)
    (hmovable : c.isMovable = true ∨ d.isMovable = true) (h : o.ranks.get c < o.ranks.get d) :
    ¬o.compareAll n m < 0 ∧ o.compareAll m n < 0 := by
  have hkeeps : (n.keepsOrder && m.keepsOrder) = false ∧ (m.keepsOrder && n.keepsOrder) = false := by
    rw [Node.keepsOrder_of_category hm, Node.keepsOrder_of_category hn]
    rcases hmovable with h | h <;> simp [h]
  unfold compareAll
  rw [hkeeps.1, hkeeps.2, rank_of_category hm, rank_of_category hn]
  have hne : o.ranks.get d ≠ o.ranks.get c := by omega
  simp only [hne, hne.symm, Bool.false_eq_true, ↓reduceIte, ne_eq, not_false_eq_true]
  omega

-- ---------------------------------------------------------------------------
-- Ranks that split nothing
-- ---------------------------------------------------------------------------

structure InBody (ms : List Node) : Prop where
  members : ∀ m ∈ ms, m.isMember = true
  indices : ms.Pairwise fun m n => m.place.index < n.place.index
  constants : ms.Pairwise fun m n =>
    n.category? = some .enumConstants → m.category? = some .enumConstants

def Present (ms : List Node) (c : Category) : Prop :=
  ∃ m ∈ ms, m.category? = some c

def initialNumbers (members : List (Nat × Node)) : List Nat :=
  (members.filter (·.2.isInitial)).map (·.1)

/-- Fields, initializer blocks and types stand in the same order as before. -/
def KeepsInitialOrder (o : MemberOrder) (ms : List Node) : Prop :=
  initialNumbers (o.sort ms) = initialNumbers (tag ms)

instance (o : MemberOrder) (ms : List Node) : Decidable (o.KeepsInitialOrder ms) :=
  inferInstanceAs (Decidable (initialNumbers _ = initialNumbers _))

/-- A category of methods whose rank is above one of the ranks that are to stay in order. -/
def IsHigh (o : MemberOrder) (ms : List Node) (n : Node) : Prop :=
  ∃ k x, n.category? = some k ∧ k.isMovable = true ∧ Present ms x ∧ x.isInitial = true ∧
    o.ranks.get x < o.ranks.get k

def SplitsNothing (o : MemberOrder) (ms : List Node) : Prop :=
  ∀ k x z, Present ms k → Present ms x → Present ms z → ¬o.ranks.Splits k x z

def LevelsNothing (o : MemberOrder) (ms : List Node) : Prop :=
  ∀ k x, Present ms k → Present ms x → ¬o.ranks.Levels k x

theorem isInitial_iff : n.isInitial = true ↔ ∃ c, n.category? = some c ∧ c.isInitial = true := by
  simp [Node.isInitial, Option.any_eq_true]

/-- A category of methods that is above one initial rank is above all, and not below constants. -/
theorem IsHigh.rank_lt (hsplit : SplitsNothing o ms) (hm : m ∈ ms) (hn : n ∈ ms)
    (h : IsHigh o ms m) (hk : m.category? = some k) (hd : n.category? = some d) :
    (d.isInitial = true → o.ranks.get d < o.ranks.get k) ∧
      (d = .enumConstants → o.ranks.get d ≤ o.ranks.get k) := by
  obtain ⟨k', x, hk', hmovable, hx, hinitial, hlt⟩ := h
  obtain rfl : k = k' := Option.some.inj (hk.symm.trans hk')
  have hnot := hsplit k x d ⟨m, hm, hk⟩ hx ⟨n, hn, hd⟩
  constructor
  · intro hdi
    by_contra hle
    exact hnot ⟨hmovable, hinitial, hlt, .inl ⟨hdi, by omega⟩⟩
  · intro hde
    by_contra hle
    exact hnot ⟨hmovable, hinitial, hlt, .inr ⟨hde, by omega⟩⟩

theorem IsHigh.rank_lt_of_not_high (h : IsHigh o ms m) (hk : m.category? = some k)
    (hd : n.category? = some d) (hmovable : d.isMovable = true) (hn : ¬IsHigh o ms n) :
    o.ranks.get d < o.ranks.get k := by
  obtain ⟨k', x, hk', -, hx, hinitial, hlt⟩ := h
  obtain rfl : k = k' := Option.some.inj (hk.symm.trans hk')
  by_contra hle
  exact hn ⟨d, x, hd, hmovable, hx, hinitial, by omega⟩

theorem not_isHigh_of_isInitial (h : n.isInitial = true) : ¬IsHigh o ms n := by
  rintro ⟨k, x, hk, hmovable, -⟩
  obtain ⟨c, hc, hinitial⟩ := isInitial_iff.mp h
  obtain rfl : c = k := Option.some.inj (hc.symm.trans hk)
  rw [Category.isMovable_of_isInitial hinitial] at hmovable
  cases hmovable

theorem compareAll_neg_of_isHigh (hsplit : SplitsNothing o ms) (hm : m ∈ ms) (hn : n ∈ ms)
    (hmember : n.isMember = true) (hindex : m.place.index < n.place.index)
    (hconstant : n.category? = some .enumConstants → m.category? = some .enumConstants)
    (hhm : IsHigh o ms m) (hhn : ¬IsHigh o ms n) : o.compareAll n m < 0 := by
  obtain ⟨d, hd⟩ := Option.isSome_iff_exists.mp hmember
  obtain ⟨k, -, hk, hmovable, -⟩ := id hhm
  rcases d.cases_kind with ⟨hdm, -⟩ | ⟨hdm, hdi⟩ | ⟨-, rfl⟩
  · have hlt := hhm.rank_lt_of_not_high hk hd hdm hhn
    exact (compareAll_of_rank_lt hd hk (.inl hdm) hlt).2
  · rw [compareAll_neg_iff hk hd (by simp [hmovable, hdm]) hindex]
    exact (hhm.rank_lt hsplit hm hn hk hd).1 hdi
  · rw [hconstant hd] at hk
    cases hk
    cases hmovable

theorem isHigh_of_compareAll_neg (hsplit : SplitsNothing o ms) (hm : m ∈ ms) (hn : n ∈ ms)
    (hmember : m.isMember = true) (hindex : m.place.index < n.place.index)
    (hlt : o.compareAll n m < 0) (h : IsHigh o ms n ∨ n.isInitial = true) : IsHigh o ms m := by
  obtain ⟨c, hc⟩ := Option.isSome_iff_exists.mp hmember
  by_contra hhm
  rcases h with hhn | hni
  · obtain ⟨k, -, hk, hmovable, -⟩ := id hhn
    obtain ⟨hinitial, hconstant⟩ := hhn.rank_lt hsplit hn hm hk hc
    rcases c.cases_kind with ⟨hcm, -⟩ | ⟨hcm, hci⟩ | ⟨hcm, hce⟩
    · have hle := hhn.rank_lt_of_not_high hk hc hcm hhm
      exact (compareAll_of_rank_lt hc hk (.inl hcm) hle).1 hlt
    · rw [compareAll_neg_iff hc hk (by simp [hmovable, hcm]) hindex] at hlt
      have := hinitial hci
      omega
    · rw [compareAll_neg_iff hc hk (by simp [hmovable, hcm]) hindex] at hlt
      have := hconstant hce
      omega
  · obtain ⟨d, hd, hdi⟩ := isInitial_iff.mp hni
    have hdm := Category.isMovable_of_isInitial hdi
    cases hcm : c.isMovable with
    | true =>
      rw [compareAll_neg_iff hc hd (by simp [hcm, hdm]) hindex] at hlt
      exact hhm ⟨c, d, hc, hcm, ⟨n, hn, hd⟩, hdi, hlt⟩
    | false =>
      rw [compareAll_of_not_movable hc hd hcm hdm, sourceOrder] at hlt
      omega

theorem pairwise_tag {r : Nat × Node → Nat × Node → Prop}
    (h : ms.Pairwise fun m n => ∀ i j, i < j → r (i, m) (j, n)) : (tag ms).Pairwise r := by
  rw [List.pairwise_iff_getElem] at h ⊢
  intro i j hi hj hij
  simp only [tag, List.getElem_mapIdx]
  exact h i j (by simpa [tag] using hi) (by simpa [tag] using hj) hij i j hij

def Precedes (x y : Nat × Node) : Prop :=
  x.1 < y.1 ∧ x.2.place.index < y.2.place.index ∧
    (y.2.category? = some .enumConstants → x.2.category? = some .enumConstants)

theorem Precedes.trans (x y z : Nat × Node) (h : Precedes x y) (h' : Precedes y z) : Precedes x z :=
  ⟨h.1.trans h'.1, h.2.1.trans h'.2.1, fun hz => h.2.2 (h'.2.2 hz)⟩

theorem InBody.precedes (hbody : InBody ms) : (tag ms).Pairwise Precedes :=
  pairwise_tag ((hbody.indices.and hbody.constants).imp fun h _ _ hij => ⟨hij, h⟩)

def comesFirst (o : MemberOrder) (x y : Nat × Node) : Bool :=
  o.compareAll x.2 y.2 < 0

theorem sort_eq_sort_comesFirst (hall : o.methodsOnly = false) (ms : List Node) :
    o.sort ms = Sorting.sort o.comesFirst (tag ms) := by
  simp only [sort, sortTagged, Sorting.sortBy, compare, hall]
  rfl

theorem separates (hbody : InBody ms) (hsplit : SplitsNothing o ms) :
    Sorting.Separates o.comesFirst Precedes (fun x => IsHigh o ms x.2)
      (fun x => x.2.isInitial = true) (tag ms) where
  disjoint _ _ hx := not_isHigh_of_isInitial hx
  lt_of_high x hx y hy hxy hhx hhy := by
    have hym := mem_of_mem_tag hy
    exact decide_eq_true (compareAll_neg_of_isHigh hsplit (mem_of_mem_tag hx) hym
      (hbody.members _ hym) hxy.2.1 hxy.2.2 hhx hhy)
  high_of_lt x hx y hy hxy hlt h := by
    have hxm := mem_of_mem_tag hx
    exact isHigh_of_compareAll_neg hsplit hxm (mem_of_mem_tag hy) (hbody.members _ hxm) hxy.2.1
      (of_decide_eq_true hlt) h

theorem keepsInitialOrder_of_keeps (hall : o.methodsOnly = false) (hbody : InBody ms)
    (h : (Sorting.sort o.comesFirst (tag ms)).Pairwise
      (Sorting.Keeps Precedes (fun x => IsHigh o ms x.2) fun x => x.2.isInitial = true)) :
    o.KeepsInitialOrder ms := by
  rw [← sort_eq_sort_comesFirst hall] at h
  have hperm : (initialNumbers (o.sort ms)).Perm (initialNumbers (tag ms)) :=
    ((sort_perm hall).filter _).map _
  have hnumbers {members : List (Nat × Node)} (h : members.Pairwise fun x y =>
      x.2.isInitial = true → y.2.isInitial = true → Precedes x y) :
      (initialNumbers members).Pairwise (· < ·) := by
    refine List.pairwise_map.mpr (List.pairwise_filter.mpr (h.imp ?_))
    exact fun h hx hy => (h hx hy).1
  refine @List.Perm.eq_of_pairwise _ (· < ·) _ _ ?_ (hnumbers (h.imp And.right))
    (hnumbers (hbody.precedes.imp fun h _ _ => h)) hperm
  intro a b _ _ hab hba
  omega

theorem keepsInitialOrder_of_short (hall : o.methodsOnly = false) (hbody : InBody ms)
    (hsplit : SplitsNothing o ms) (hshort : ms.length < 64) : o.KeepsInitialOrder ms :=
  keepsInitialOrder_of_keeps hall hbody (Sorting.sort_keeps_of_short (separates hbody hsplit)
    (by simpa [tag] using hshort) hbody.precedes Precedes.trans)

theorem isHigh_of_compareAll_nonneg (hlevel : LevelsNothing o ms) (hm : m ∈ ms) (hn : n ∈ ms)
    (hmember : n.isMember = true) (hindex : m.place.index < n.place.index)
    (hconstant : n.category? = some .enumConstants → m.category? = some .enumConstants)
    (hinitial : m.isInitial = true) (hle : ¬o.compareAll n m < 0) :
    IsHigh o ms n ∨ n.isInitial = true := by
  obtain ⟨x, hx, hxi⟩ := isInitial_iff.mp hinitial
  obtain ⟨d, hd⟩ := Option.isSome_iff_exists.mp hmember
  have hxm := Category.isMovable_of_isInitial hxi
  rcases d.cases_kind with ⟨hdm, -⟩ | ⟨-, hdi⟩ | ⟨-, rfl⟩
  · rw [compareAll_neg_iff hx hd (by simp [hxm, hdm]) hindex] at hle
    have hne := hlevel d x ⟨n, hn, hd⟩ ⟨m, hm, hx⟩
    refine .inl ⟨d, x, hd, hdm, ⟨m, hm, hx⟩, hxi, ?_⟩
    have : o.ranks.get x ≠ o.ranks.get d := fun heq => hne ⟨hdm, hxi, heq⟩
    omega
  · exact .inr (isInitial_iff.mpr ⟨d, hd, hdi⟩)
  · rw [hconstant hd] at hx
    cases hx
    cases hxi

theorem keepsInitialOrder_of_levelsNothing (hall : o.methodsOnly = false) (hbody : InBody ms)
    (hsplit : SplitsNothing o ms) (hlevel : LevelsNothing o ms) : o.KeepsInitialOrder ms := by
  refine keepsInitialOrder_of_keeps hall hbody (Sorting.sort_keeps (separates hbody hsplit)
    hbody.precedes Precedes.trans fun x hx y hy hxy hinitial hle => ?_)
  have hym := mem_of_mem_tag hy
  exact isHigh_of_compareAll_nonneg hlevel (mem_of_mem_tag hx) hym (hbody.members _ hym) hxy.2.1
    hxy.2.2 hinitial (of_decide_eq_false hle)

theorem InBody.sublist (h : InBody ms) (hs : ns.Sublist ms) : InBody ns :=
  ⟨fun m hm => h.members m (hs.subset hm), h.indices.sublist hs, h.constants.sublist hs⟩

end MemberOrder

theorem Java.ReadType.inBody (r : ReadType text) : MemberOrder.InBody r.members := by
  refine ⟨fun m hm => r.isMember hm, List.pairwise_iff_getElem.mpr ?_,
    List.pairwise_iff_getElem.mpr ?_⟩
  · intro i j hi hj hij
    rw [r.index_eq (List.getElem?_eq_getElem hi), r.index_eq (List.getElem?_eq_getElem hj)]
    omega
  · intro i j hi hj hij
    rw [r.category_eq_enumConstants_iff (List.getElem?_eq_getElem hi),
      r.category_eq_enumConstants_iff (List.getElem?_eq_getElem hj)]
    omega

end CallerFirst
