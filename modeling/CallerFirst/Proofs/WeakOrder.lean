import CallerFirst.MethodOrder
import CallerFirst.Proofs.Comparator
import CallerFirst.Proofs.Exploration
import CallerFirst.Proofs.Sorting
import Mathlib.Data.Prod.Lex
import Mathlib.Data.String.Basic

/-!
# Comparisons that are orders up to ties

Ranks, names and places compare by a key, and asking one such comparison after the other is again an
order up to ties. `exists_weak_criteria`: so are the priorities, on all pairs that reachability leaves
open where it is among them.
-/

namespace CallerFirst

/-- Two elements the other way round have the opposite verdict. -/
def Flips (compare : α → α → Int) : Prop :=
  ∀ a b, compare a b < 0 ↔ 0 < compare b a

/-- A three-way comparison that is an order up to ties. -/
structure Weak (compare : α → α → Int) : Prop where
  flip : Flips compare
  trans : ∀ a b c, 0 ≤ compare b a → 0 ≤ compare c b → 0 ≤ compare c a

def byKey [LinearOrder κ] (key : α → κ) (a b : α) : Int :=
  if key a < key b then -1 else if key b < key a then 1 else 0

theorem byKey_eq_zero [LinearOrder κ] {key : α → κ} : byKey key a b = 0 ↔ key a = key b := by
  unfold byKey
  rcases lt_trichotomy (key a) (key b) with h | h | h
  · simp [h, h.ne]
  · simp [h]
  · simp [h, h.ne', h.not_gt]

def thenBy (first second : α → α → Int) (a b : α) : Int :=
  if first a b = 0 then second a b else first a b

theorem thenBy_neg {first second : α → α → Int} :
    thenBy first second a b < 0 ↔ first a b < 0 ∨ first a b = 0 ∧ second a b < 0 := by
  unfold thenBy
  split <;> omega

theorem thenBy_eq_zero {first second : α → α → Int} :
    thenBy first second a b = 0 ↔ first a b = 0 ∧ second a b = 0 := by
  unfold thenBy
  split <;> omega

theorem Flips.eq_zero_comm {compare : α → α → Int} (h : Flips compare) (hab : compare a b = 0) :
    compare b a = 0 := by
  have := h a b
  have := h b a
  omega

theorem Flips.thenBy {first second : α → α → Int} (h : Flips first) (h' : Flips second) :
    Flips (thenBy first second) := by
  intro a b
  unfold CallerFirst.thenBy
  by_cases hab : first a b = 0
  · rw [if_pos hab, if_pos (h.eq_zero_comm hab)]
    exact h' a b
  · rw [if_neg hab, if_neg fun hba => hab (h.eq_zero_comm hba)]
    exact h a b

namespace Weak

theorem zero : Weak fun (_ _ : α) => (0 : Int) :=
  ⟨by simp [Flips], by simp⟩

theorem byKey [LinearOrder κ] (key : α → κ) : Weak (byKey key) where
  flip a b := by
    unfold CallerFirst.byKey
    rcases lt_trichotomy (key a) (key b) with h | h | h
    · simp [h, h.not_gt]
    · simp [h]
    · simp [h, h.not_gt]
  trans a b c hab hbc := by
    unfold CallerFirst.byKey at *
    split at hab
    · cases hab
    · split at hbc
      · cases hbc
      · rename_i hba hcb
        rw [if_neg (not_lt.mpr ((not_lt.mp hba).trans (not_lt.mp hcb)))]
        split <;> decide

theorem comap {compare : β → β → Int} (h : Weak compare) (f : α → β) :
    Weak fun a b => compare (f a) (f b) :=
  ⟨fun _ _ => h.flip _ _, fun _ _ _ => h.trans _ _ _⟩

theorem thenBy {first second : α → α → Int} (h : Weak first) (h' : Weak second) :
    Weak (thenBy first second) where
  flip := h.flip.thenBy h'.flip
  trans a b c hba hcb := by
    -- neither step goes down in the first comparison, and where the whole is level so are both
    have hfirst {x y : α} (hxy : 0 ≤ CallerFirst.thenBy first second x y) : 0 ≤ first x y := by
      unfold CallerFirst.thenBy at hxy
      split at hxy
      · omega
      · exact hxy
    have hca := h.trans a b c (hfirst hba) (hfirst hcb)
    unfold CallerFirst.thenBy at *
    split
    · rename_i hlevel
      have hac := h.flip.eq_zero_comm hlevel
      have hab := h.trans b c a (hfirst hcb) (by omega)
      have hbc := h.trans c a b (by omega) (hfirst hba)
      have h1 := h.flip a b
      have h2 := h.flip b a
      have h3 := h.flip b c
      have h4 := h.flip c b
      have hba' := hfirst hba
      have hcb' := hfirst hcb
      rw [if_pos (by omega)] at hba hcb
      exact h'.trans a b c hba hcb
    · exact hca

theorem consistent {compare : α → α → Int} (h : Weak compare) (xs : List α) :
    Sorting.Consistent (fun a b => decide (compare a b < 0)) xs where
  asymm a _ b _ hab := by
    have := (h.flip a b).mp (of_decide_eq_true hab)
    exact decide_eq_false (by omega)
  trans a _ b _ c _ hba hcb := by
    have := h.trans a b c (not_lt.mp (of_decide_eq_false hba)) (not_lt.mp (of_decide_eq_false hcb))
    exact decide_eq_false (not_lt.mpr this)

end Weak

-- ---------------------------------------------------------------------------
-- Ranks
-- ---------------------------------------------------------------------------

namespace Rank

def level : Rank → ℕ ×ₗ ℚ
  | bottom => toLex (1, 0)
  | finite value => toLex (2, value)
  | top => toLex (3, 0)
  | undefined => toLex (4, 0)

theorem compare_eq (ha : a ≠ undefined) (hb : b ≠ undefined) : compare a b = byKey level a b := by
  cases a <;> cases b <;>
    first
    | exact absurd rfl ha
    | exact absurd rfl hb
    | simp [compare, lt, byKey, level, Prod.Lex.toLex_lt_toLex]

theorem lt_level (r : Rank) : toLex ((0 : ℕ), (0 : ℚ)) < r.level := by
  cases r <;> simp [level, Prod.Lex.toLex_lt_toLex]

theorem level_lt (r : Rank) : r.level < toLex ((5 : ℕ), (0 : ℚ)) := by
  cases r <;> simp [level, Prod.Lex.toLex_lt_toLex]

theorem ratio_ne_undefined (a b : Nat) : ratio a b ≠ undefined := by
  unfold ratio
  split <;> simp

end Rank

namespace RankTable

variable {t : RankTable}

def Defined (t : RankTable) : Prop :=
  ∀ e ∈ t.entries, e.2 ≠ .undefined

def key (t : RankTable) (s : Signature) : ℕ ×ₗ ℚ :=
  match t.get? s with
  | none => if t.unknownFirst then toLex (0, 0) else toLex (5, 0)
  | some r => r.level

theorem Defined.get? (h : t.Defined) (hs : t.get? s = some r) : r ≠ .undefined := by
  obtain ⟨front, back, heq, -⟩ := List.lookup_eq_some_iff.mp hs
  exact h (s, r) (by simp [heq])

theorem Defined.weak (h : t.Defined) : Weak t.compare := by
  have hkey : t.compare = byKey t.key := by
    funext a b
    unfold RankTable.compare byKey key
    cases ha : t.get? a with
    | none =>
      cases hb : t.get? b with
      | none => simp
      | some r => cases t.unknownFirst <;> simp [r.lt_level, r.level_lt, r.level_lt.not_gt]
    | some q =>
      cases hb : t.get? b with
      | none => cases t.unknownFirst <;> simp [q.lt_level, q.level_lt, q.lt_level.not_gt]
      | some r => exact Rank.compare_eq (h.get? ha) (h.get? hb)
  rw [hkey]
  exact Weak.byKey t.key

theorem Defined.put (h : t.Defined) (hr : r ≠ .undefined) : (t.put s r).Defined := by
  intro e he
  unfold RankTable.put at he
  simp only at he
  split at he
  · obtain ⟨f, hf, rfl⟩ := List.mem_map.mp he
    split
    · exact hr
    · exact h f hf
  · rcases List.mem_append.mp he with he | he
    · exact h e he
    · obtain rfl := List.mem_singleton.mp he
      exact hr

theorem defined_ofList {entries : List (Signature × Rank)} (h : ∀ e ∈ entries, e.2 ≠ .undefined)
    (unknownFirst : Bool) : (ofList entries unknownFirst).Defined := by
  suffices hfold : ∀ t : RankTable, t.Defined →
      (entries.foldl (fun t e => t.put e.1 e.2) t).Defined from hfold { unknownFirst } (by simp [Defined])
  induction entries with
  | nil => exact fun t ht => ht
  | cons e entries ih =>
    intro t ht
    exact ih (fun f hf => h f (.tail _ hf)) _ (ht.put (h e List.mem_cons_self))

theorem defined_ofMethods {rank : Nat → Method → Rank} (h : ∀ i m, rank i m ≠ .undefined)
    (methods : List Method) (unknownFirst : Bool) :
    (ofMethods methods unknownFirst rank).Defined := by
  refine defined_ofList (fun e he => ?_) unknownFirst
  obtain ⟨i, hi, rfl⟩ := List.mem_mapIdx.mp he
  exact h _ _

theorem defined_ofNodes {rank : Signature → Rank} (h : ∀ s, rank s ≠ .undefined)
    (nodes : List Signature) : (ofNodes nodes rank).Defined := by
  refine defined_ofList (fun e he => ?_) false
  obtain ⟨s, hs, rfl⟩ := List.mem_map.mp he
  exact h s

theorem defined_sourcePosition (root : Node) : (sourcePosition root).Defined :=
  defined_ofMethods (fun _ _ => by simp) _ _

theorem defined_access (root : Node) : (access root).Defined :=
  defined_ofMethods (fun _ _ => by simp) _ _

theorem defined_constructors (root : Node) : (constructors root).Defined :=
  defined_ofMethods (fun _ _ => by simp) _ _

theorem defined_initializers (root : Node) : (initializers root).Defined := by
  refine defined_ofList (fun e he => ?_) _
  obtain ⟨i, -, rfl⟩ := List.mem_map.mp he
  simp

section Graph

variable (g : CallGraph Signature) (nodes : List Signature)

theorem defined_fanOut : (fanOut g nodes).Defined :=
  defined_ofNodes (fun _ => by simp) nodes

theorem defined_fanIn : (fanIn g nodes).Defined :=
  defined_ofNodes (fun _ => by simp) nodes

theorem defined_fanRate : (fanRate g nodes).Defined :=
  defined_ofNodes (fun _ => Rank.ratio_ne_undefined _ _) nodes

theorem defined_roots : (roots g nodes).Defined :=
  defined_ofNodes (fun _ => by split <;> simp) nodes

theorem defined_leaves : (leaves g nodes).Defined :=
  defined_ofNodes (fun _ => by split <;> simp) nodes

end Graph

end RankTable

-- ---------------------------------------------------------------------------
-- Stacks
-- ---------------------------------------------------------------------------

namespace Comparator

theorem firstVerdict_cons (layer : Comparator) (layers : List Comparator) (a b : Signature) :
    firstVerdict (layer :: layers) a b = thenBy layer.compare (firstVerdict layers) a b := by
  rw [firstVerdict, thenBy]

theorem firstVerdict_append (layers rest : List Comparator) (a b : Signature) :
    firstVerdict (layers ++ rest) a b = thenBy (firstVerdict layers) (firstVerdict rest) a b := by
  induction layers with
  | nil => simp [thenBy, firstVerdict]
  | cons layer layers ih =>
    rw [List.cons_append, firstVerdict_cons, thenBy, ih, thenBy, thenBy, firstVerdict_cons, thenBy]
    split <;> rfl

theorem firstVerdict_eq_zero {layers : List Comparator} :
    firstVerdict layers a b = 0 ↔ ∀ c ∈ layers, c.compare a b = 0 := by
  induction layers with
  | nil => simp [firstVerdict]
  | cons layer layers ih =>
    rw [firstVerdict_cons, thenBy, List.forall_mem_cons, ← ih]
    split
    · simp [*]
    · simp [*]

theorem weak_firstVerdict {layers : List Comparator} (h : ∀ c ∈ layers, Weak c.compare) :
    Weak (firstVerdict layers) := by
  induction layers with
  | nil => exact .zero
  | cons layer layers ih =>
    have heq : firstVerdict (layer :: layers) = thenBy layer.compare (firstVerdict layers) := by
      funext a b
      exact firstVerdict_cons layer layers a b
    rw [heq]
    exact (h layer List.mem_cons_self).thenBy (ih fun c hc => h c (.tail _ hc))

end Comparator

-- ---------------------------------------------------------------------------
-- Priorities
-- ---------------------------------------------------------------------------

namespace CallGraph

open Comparator (firstVerdict_cons)

variable {p : Preferences} {root : Node} {nodes : List Signature} {g : CallGraph Signature}

/-- All priorities but two are orders up to ties, and leave the graph as it is. -/
theorem exists_weak_criterion {priority : Priority} (hinvocation : priority ≠ .invocation)
    (hreachability : priority ≠ .reachability) :
    ∃ c : Comparator, g.criterion p root nodes priority = (c, g) ∧ Weak c.compare := by
  have htable {t : RankTable} (ht : t.Defined) : Weak (Comparator.ranks t).compare := ht.weak
  cases priority with
  | invocation => exact absurd rfl hinvocation
  | reachability => exact absurd rfl hreachability
  | lexical => exact ⟨_, rfl, Weak.byKey Signature.key⟩
  | accessLevel => exact ⟨_, rfl, htable (RankTable.defined_access root)⟩
  | constructor => exact ⟨_, rfl, htable (RankTable.defined_constructors root)⟩
  | sourcePosition => exact ⟨_, rfl, htable (RankTable.defined_sourcePosition root)⟩
  | initializer => exact ⟨_, rfl, htable (RankTable.defined_initializers root)⟩
  | fanOut => exact ⟨_, rfl, htable (RankTable.defined_fanOut g nodes)⟩
  | fanIn => exact ⟨_, rfl, htable (RankTable.defined_fanIn g nodes)⟩
  | fanInFanOutRate => exact ⟨_, rfl, htable (RankTable.defined_fanRate g nodes)⟩
  | roots => exact ⟨_, rfl, htable (RankTable.defined_roots g nodes)⟩
  | leaves => exact ⟨_, rfl, htable (RankTable.defined_leaves g nodes)⟩

theorem firstVerdict_invocation (priorities : List Priority) (ha : a ∈ nodes) (hb : b ∈ nodes) :
    Comparator.firstVerdict (g.criteria p root nodes (.invocation :: priorities)).1 a b =
      RankTable.byPlace (Arrangement.traverse p.placement p.strategy { graph := g } nodes).ordered
        a b := by
  have hroot {s : Signature} (hs : s ∈ nodes) :
      s ∈ (Arrangement.traverse p.placement p.strategy { graph := g } nodes).ordered :=
    Arrangement.mem_traverse_root hs
  rw [criteria, criterion]
  exact Comparator.firstVerdict_byPlace (hroot ha)
    (RankTable.compare_ofArrangement (Arrangement.nodup_traverse _ _ g nodes) (hroot ha) (hroot hb))

/-- Priorities are an order up to ties on the pairs that reachability leaves open, if it is among
them: it says nothing more about those, and a traversal leaves no pair open. -/
theorem exists_weak_criteria (p : Preferences) (root : Node) (nodes : List Signature)
    (g : CallGraph Signature) (priorities : List Priority) :
    ∃ weak, Weak weak ∧ ∀ a ∈ nodes, ∀ b ∈ nodes,
      (.reachability ∈ priorities → Comparator.compareReach (g.reachability nodes) a b = 0) →
        Comparator.firstVerdict (g.criteria p root nodes priorities).1 a b = weak a b := by
  induction priorities with
  | nil => exact ⟨_, .zero, fun _ _ _ _ _ => rfl⟩
  | cons priority priorities ih =>
    obtain ⟨weak, hweak, hrest⟩ := ih
    by_cases hinvocation : priority = .invocation
    · subst hinvocation
      exact ⟨_, .byKey (List.idxOf · _), fun a ha b hb _ => firstVerdict_invocation priorities ha hb⟩
    by_cases hreachability : priority = .reachability
    · subst hreachability
      refine ⟨weak, hweak, fun a ha b hb hab => ?_⟩
      have hlevel : (Comparator.reachability (g.reachability nodes)).compare a b = 0 := hab (.head _)
      rw [criteria, criterion, firstVerdict_cons, thenBy, if_pos hlevel]
      exact hrest a ha b hb fun h => hab (.tail _ h)
    · obtain ⟨c, hcriterion, hc⟩ := exists_weak_criterion hinvocation hreachability
      refine ⟨thenBy c.compare weak, hc.thenBy hweak, fun a ha b hb hab => ?_⟩
      rw [criteria, hcriterion, firstVerdict_cons, thenBy, thenBy,
        hrest a ha b hb fun h => hab (.tail _ h)]

end CallGraph

end CallerFirst
