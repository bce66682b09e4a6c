import Mathlib.Data.Bool.Basic

/-!
# Entries by key

A value goes into a list of entries in place of the one with its key, or to the end. Tables of ranks,
trees of files and failures of a batch are kept so.
-/

namespace CallerFirst.Entries

variable {κ β : Type} [DecidableEq κ] {k a : κ} {v : β}

theorem map_fst_replace (entries : List (κ × β)) (k : κ) (v : β) :
    (entries.map fun e => if e.1 = k then (k, v) else e).map Prod.fst = entries.map Prod.fst := by
  rw [List.map_map]
  refine List.map_congr_left fun e _ => ?_
  simp only [Function.comp_apply]
  split
  · rename_i he
    exact he.symm
  · rfl

variable [BEq κ] [LawfulBEq κ] {entries : List (κ × β)}

theorem isSome_lookup (entries : List (κ × β)) (k : κ) :
    (entries.lookup k).isSome = entries.any (·.1 == k) := by
  induction entries with
  | nil => rfl
  | cons e entries ih =>
    obtain ⟨b, w⟩ := e
    rw [List.lookup_cons, List.any_cons]
    by_cases h : b = k
    · simp [h]
    · simp [h, beq_false_of_ne (Ne.symm h), ih]

theorem lookup_replace (entries : List (κ × β)) (k a : κ) (v : β) :
    (entries.map fun e => if e.1 = k then (k, v) else e).lookup a =
      if a = k then (entries.lookup k).map fun _ => v else entries.lookup a := by
  induction entries with
  | nil => simp
  | cons e entries ih =>
    obtain ⟨b, w⟩ := e
    rw [List.map_cons, List.lookup_cons, List.lookup_cons, List.lookup_cons, ih]
    by_cases hb : b = k <;> by_cases ha : a = k <;> grind

theorem lookup_put (entries : List (κ × β)) (k a : κ) (v : β) :
    (if entries.any (·.1 == k) then entries.map fun e => if e.1 = k then (k, v) else e
      else entries ++ [(k, v)]).lookup a = if a = k then some v else entries.lookup a := by
  rw [← isSome_lookup]
  cases h : entries.lookup k with
  | some w => simp [lookup_replace, h]
  | none =>
    by_cases ha : a = k
    · simp [List.lookup_append, ha, h]
    · simp [List.lookup_append, ha, List.lookup_cons, beq_false_of_ne ha]

theorem mem_keys_put :
    a ∈ (if entries.any (·.1 == k) then entries.map fun e => if e.1 = k then (k, v) else e
      else entries ++ [(k, v)]).map Prod.fst ↔ a = k ∨ a ∈ entries.map Prod.fst := by
  split
  · rename_i h
    obtain ⟨e, he, hk⟩ := List.any_eq_true.mp h
    have hmem : k ∈ entries.map Prod.fst := List.mem_map.mpr ⟨e, he, eq_of_beq hk⟩
    rw [map_fst_replace]
    exact ⟨.inr, fun ha => ha.elim (fun ha => ha ▸ hmem) id⟩
  · simp [or_comm]

theorem nodup_keys_put (h : (entries.map Prod.fst).Nodup) (k : κ) (v : β) :
    ((if entries.any (·.1 == k) then entries.map fun e => if e.1 = k then (k, v) else e
      else entries ++ [(k, v)]).map Prod.fst).Nodup := by
  split
  · rwa [map_fst_replace]
  · rename_i hnew
    have hk : k ∉ entries.map Prod.fst := by simpa using hnew
    rw [List.map_append, List.map_singleton, List.nodup_append]
    refine ⟨h, List.pairwise_singleton _ _, fun a ha b hb => ?_⟩
    rw [List.mem_singleton.mp hb]
    exact ne_of_mem_of_not_mem ha hk

end CallerFirst.Entries
