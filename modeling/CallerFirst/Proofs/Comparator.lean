import CallerFirst.Comparator.Criteria
import Mathlib.Data.List.Basic
import Mathlib.Data.Rat.Cast.Order

/-!
# Verdicts of comparators

Nothing comes before itself (`compare_self`). A table made from an arrangement tells any two of its
nodes apart by their places (`compare_ofArrangement`), so a stack that asks such a table first is
decided by it.
-/

namespace CallerFirst

namespace Rank

theorem compare_self (r : Rank) : r.compare r = 0 := by
  cases r <;> simp [compare, lt]

theorem compare_natCast (i j : Nat) :
    compare (.finite i) (.finite j) = if i < j then -1 else if j < i then 1 else 0 := by
  simp [compare, lt]

end Rank

namespace RankTable

variable {entries : List (Signature × Rank)} {ordered : List Signature}

theorem compare_self (t : RankTable) (s : Signature) : t.compare s s = 0 := by
  unfold compare
  cases t.get? s with
  | none => rfl
  | some r => exact r.compare_self

theorem foldl_put (t : RankTable) (h : ((t.entries ++ entries).map Prod.fst).Nodup) :
    entries.foldl (fun t e => t.put e.1 e.2) t = { t with entries := t.entries ++ entries } := by
  induction entries generalizing t with
  | nil => simp
  | cons e entries ih =>
    have hne : t.contains e.1 = false := by
      simp only [List.map_append, List.map_cons, List.nodup_append] at h
      rw [contains, List.any_eq_false]
      intro f hf heq
      exact h.2.2 f.1 (List.mem_map_of_mem hf) e.1 List.mem_cons_self (by simpa using heq)
    have hput : t.put e.1 e.2 = { t with entries := t.entries ++ [e] } := by simp [put, hne]
    rw [List.foldl_cons, hput, ih _ (by simpa using h)]
    simp

theorem entries_ofList (h : (entries.map Prod.fst).Nodup) (unknownFirst : Bool) :
    ofList entries unknownFirst = { entries, unknownFirst } := by
  simpa [ofList] using foldl_put { unknownFirst } (by simpa using h)

theorem lookup_mapIdx (h : a ∈ ordered) (f : Nat → Rank) :
    (ordered.mapIdx fun i v => (v, f i)).lookup a = some (f (ordered.idxOf a)) := by
  induction ordered generalizing f with
  | nil => cases h
  | cons v ordered ih =>
    rw [List.mapIdx_cons, List.lookup_cons, List.idxOf_cons]
    by_cases hv : a = v
    · simp [hv]
    · have ha : a ∈ ordered := (List.mem_cons.mp h).resolve_left hv
      rw [beq_eq_false_iff_ne.mpr hv, beq_eq_false_iff_ne.mpr (Ne.symm hv)]
      exact ih ha fun i => f (i + 1)

theorem get?_ofArrangement (hn : ordered.Nodup) (h : a ∈ ordered) :
    (ofArrangement ordered).get? a = some (.finite (ordered.idxOf a)) := by
  have hkeys : (ordered.mapIdx fun i v => (v, Rank.finite i)).map Prod.fst = ordered := by
    refine List.ext_getElem? fun i => ?_
    simp [Function.comp_def]
  show (ofList (ordered.mapIdx fun i v => (v, Rank.finite i)) false).get? a = _
  rw [entries_ofList (hkeys.symm ▸ hn)]
  exact lookup_mapIdx h fun i => .finite i

def byPlace (ordered : List Signature) (a b : Signature) : Int :=
  if ordered.idxOf a < ordered.idxOf b then -1
  else if ordered.idxOf b < ordered.idxOf a then 1
  else 0

theorem compare_ofArrangement (hn : ordered.Nodup) (ha : a ∈ ordered) (hb : b ∈ ordered) :
    (ofArrangement ordered).compare a b = byPlace ordered a b := by
  simp only [compare, get?_ofArrangement hn ha, get?_ofArrangement hn hb, Rank.compare_natCast,
    byPlace]

theorem byPlace_eq_zero (ha : a ∈ ordered) : byPlace ordered a b = 0 ↔ a = b := by
  unfold byPlace
  constructor
  · intro h
    have hidx : ordered.idxOf a = ordered.idxOf b := by
      split at h
      · cases h
      · split at h
        · cases h
        · omega
    exact (List.idxOf_inj ha).mp hidx
  · rintro rfl
    simp

end RankTable

namespace Comparator

theorem compareReach_self (reached : List (Signature × List Signature)) (a : Signature) :
    compareReach reached a a = 0 := by
  unfold compareReach
  cases reached.lookup a with
  | none => rfl
  | some targets => cases h : targets.contains a <;> simp only [h]

mutual
theorem compare_self (a : Signature) : ∀ c : Comparator, c.compare a a = 0
  | ranks table => table.compare_self a
  | lexical => by
    have hlt : ¬a < a := String.lt_irrefl a.key
    simp [compare, compareKeys, hlt]
  | null => rfl
  | reachability reached => compareReach_self reached a
  | stack known layers => by
    unfold compare
    split
    · exact firstVerdict_self a layers
    · rfl
  | clustered outer clusters => by
    unfold compare
    split
    · rename_i i c j d hi hj
      obtain ⟨rfl, rfl⟩ : i = j ∧ c = d := by simpa using hi.symm.trans hj
      simpa using c.ranks.compare_self a
    · rfl
theorem firstVerdict_self (a : Signature) : ∀ layers : List Comparator, firstVerdict layers a a = 0
  | [] => rfl
  | layer :: rest => by
    unfold firstVerdict
    simp [compare_self a layer, firstVerdict_self a rest]
end

theorem firstVerdict_byPlace {layer : Comparator} {rest : List Comparator} (ha : a ∈ ordered)
    (hlayer : layer.compare a b = RankTable.byPlace ordered a b) :
    firstVerdict (layer :: rest) a b = RankTable.byPlace ordered a b := by
  by_cases hab : a = b
  · subst hab
    rw [firstVerdict_self, (RankTable.byPlace_eq_zero ha).mpr rfl]
  · have hne : RankTable.byPlace ordered a b ≠ 0 := by
      rwa [Ne, RankTable.byPlace_eq_zero ha]
    simp only [firstVerdict, hlayer, hne, ↓reduceIte]

theorem compare_stack_byPlace {layer : Comparator} {rest : List Comparator}
    (hknown : ∀ s ∈ known, s ∈ ordered)
    (hlayer : ∀ a ∈ ordered, ∀ b ∈ ordered, layer.compare a b = RankTable.byPlace ordered a b)
    (ha : a ∈ known) (hb : b ∈ known) :
    (stack known (layer :: rest)).compare a b = RankTable.byPlace ordered a b := by
  have hknows : (known.contains a && known.contains b) = true := by simp [ha, hb]
  simp only [compare, hknows, ↓reduceIte]
  exact firstVerdict_byPlace (hknown a ha) (hlayer a (hknown a ha) b (hknown b hb))

end Comparator

end CallerFirst
