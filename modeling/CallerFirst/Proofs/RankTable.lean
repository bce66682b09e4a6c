import CallerFirst.Proofs.Comparator
import CallerFirst.Proofs.Entries

/-!
# Tables go by their entries

A table over different signatures gives each of them the rank it was given, so tables with the same
entries in another order compare alike (`compare_ofList_eq`). Only places in the source depend on the
order of the methods.
-/

namespace CallerFirst.RankTable

variable {entries entries' : List (Signature × Rank)} {nodes nodes' : List Signature}
  {methods methods' : List Method} {t : RankTable}

theorem lookup_eq_some_iff_mem (h : (entries.map Prod.fst).Nodup) :
    entries.lookup s = some r ↔ (s, r) ∈ entries := by
  induction entries with
  | nil => simp
  | cons e entries ih =>
    obtain ⟨a, q⟩ := e
    obtain ⟨hne, hnodup⟩ := List.nodup_cons.mp h
    rw [List.lookup_cons, List.mem_cons, Prod.mk.injEq]
    by_cases hs : s = a
    · subst hs
      have hnot (q : Rank) : (s, q) ∉ entries := fun hm => hne (List.mem_map.mpr ⟨_, hm, rfl⟩)
      simp [hnot, eq_comm]
    · simp [hs, beq_eq_false_iff_ne.mpr hs, ih hnodup]

theorem get?_ofList (h : (entries.map Prod.fst).Nodup) (unknownFirst : Bool) :
    (ofList entries unknownFirst).get? s = some r ↔ (s, r) ∈ entries := by
  rw [entries_ofList h]
  exact lookup_eq_some_iff_mem h

theorem isSome_get?_ofList (h : (entries.map Prod.fst).Nodup) (unknownFirst : Bool) :
    ((ofList entries unknownFirst).get? s).isSome = true ↔ s ∈ entries.map Prod.fst := by
  simp [Option.isSome_iff_exists, get?_ofList h]

@[simp] theorem unknownFirst_ofList (entries : List (Signature × Rank)) (unknownFirst : Bool) :
    (ofList entries unknownFirst).unknownFirst = unknownFirst := by
  have hfold (t : RankTable) :
      (entries.foldl (fun t e => t.put e.1 e.2) t).unknownFirst = t.unknownFirst := by
    induction entries generalizing t with
    | nil => rfl
    | cons e entries ih => exact ih (t.put e.1 e.2)
  exact hfold { unknownFirst }

theorem compare_ofList_eq (h : entries.Perm entries') (hd : (entries.map Prod.fst).Nodup)
    (unknownFirst : Bool) :
    (ofList entries unknownFirst).compare = (ofList entries' unknownFirst).compare := by
  have hd' : (entries'.map Prod.fst).Nodup := (h.map Prod.fst).nodup_iff.mp hd
  have hget (s : Signature) :
      (ofList entries unknownFirst).get? s = (ofList entries' unknownFirst).get? s := by
    refine Option.ext fun r => ?_
    rw [get?_ofList hd, get?_ofList hd', h.mem_iff]
  funext a b
  rw [compare, compare, hget, hget, unknownFirst_ofList, unknownFirst_ofList]

theorem isSome_eq_of_compare (h : t.compare a b = 0) : (t.get? a).isSome = (t.get? b).isSome := by
  unfold compare at h
  cases ha : t.get? a with
  | none =>
    cases hb : t.get? b with
    | none => rfl
    | some r => cases hfirst : t.unknownFirst <;> simp [ha, hb, hfirst] at h
  | some q =>
    cases hb : t.get? b with
    | none => cases hfirst : t.unknownFirst <;> simp [ha, hb, hfirst] at h
    | some r => rfl

theorem compare_le_of_unknown (hb : t.get? b = none) (hlast : t.unknownFirst = false) :
    t.compare a b ≤ 0 := by
  unfold compare
  cases ha : t.get? a <;> simp [hb, hlast]

-- ---------------------------------------------------------------------------
-- Entries for the same signature
-- ---------------------------------------------------------------------------

theorem get?_put (t : RankTable) (s a : Signature) (r : Rank) :
    (t.put s r).get? a = if a = s then some r else t.get? a :=
  Entries.lookup_put t.entries s a r

theorem mem_of_get?_ofList {unknownFirst : Bool} (h : (ofList entries unknownFirst).get? s = some r) :
    (s, r) ∈ entries := by
  suffices hfold : ∀ t : RankTable, (entries.foldl (fun t e => t.put e.1 e.2) t).get? s = some r →
      (s, r) ∈ entries ∨ t.get? s = some r from (hfold { unknownFirst } h).resolve_right (by simp [get?])
  clear h
  induction entries with
  | nil => exact fun t h => .inr h
  | cons e entries ih =>
    intro t h
    rcases ih _ h with h | h
    · exact .inl (.tail _ h)
    · rw [get?_put] at h
      split at h
      · rename_i hs
        cases h
        exact .inl (hs ▸ .head _)
      · exact .inr h

theorem exists_get?_ofList (h : s ∈ entries.map Prod.fst) (unknownFirst : Bool) :
    ∃ r, (ofList entries unknownFirst).get? s = some r := by
  suffices hfold : ∀ t : RankTable, s ∈ entries.map Prod.fst ∨ (t.get? s).isSome = true →
      ((entries.foldl (fun t e => t.put e.1 e.2) t).get? s).isSome = true from
    Option.isSome_iff_exists.mp (hfold { unknownFirst } (.inl h))
  clear h
  induction entries with
  | nil => exact fun t h => h.resolve_left (by simp)
  | cons e entries ih =>
    intro t h
    refine ih _ ?_
    rw [get?_put]
    by_cases hs : s = e.1
    · simp [hs]
    · simpa [hs] using h

-- ---------------------------------------------------------------------------
-- Nodes and methods
-- ---------------------------------------------------------------------------

theorem get?_ofNodes (hd : nodes.Nodup) (hs : s ∈ nodes) (rank : Signature → Rank) :
    (ofNodes nodes rank).get? s = some (rank s) := by
  refine (get?_ofList ?_ false).mpr (List.mem_map_of_mem hs)
  simpa [Function.comp_def] using hd

theorem compare_ofNodes_eq {rank rank' : Signature → Rank} (h : nodes.Perm nodes')
    (hd : nodes.Nodup) (hrank : ∀ s, rank s = rank' s) :
    (ofNodes nodes rank).compare = (ofNodes nodes' rank').compare := by
  obtain rfl : rank = rank' := funext hrank
  refine compare_ofList_eq (h.map _) ?_ false
  simpa [Function.comp_def] using hd

theorem keys_ofMethods (methods : List Method) (rank : Nat → Method → Rank) :
    (methods.mapIdx fun i m => (Signature.ofMethod m, rank i m)).map Prod.fst =
      methods.map Signature.ofMethod := by
  refine List.ext_getElem? fun i => ?_
  simp [Function.comp_def]

theorem isSome_get?_ofMethods (hd : (methods.map Signature.ofMethod).Nodup) (unknownFirst : Bool)
    (rank : Nat → Method → Rank) :
    ((ofMethods methods unknownFirst rank).get? s).isSome = true ↔
      s ∈ methods.map Signature.ofMethod := by
  rw [← keys_ofMethods methods rank] at hd ⊢
  exact isSome_get?_ofList hd unknownFirst

theorem compare_ofMethods_eq (h : methods.Perm methods')
    (hd : (methods.map Signature.ofMethod).Nodup) (unknownFirst : Bool) (rank : Method → Rank) :
    (ofMethods methods unknownFirst fun _ m => rank m).compare =
      (ofMethods methods' unknownFirst fun _ m => rank m).compare := by
  have hentries (methods : List Method) :
      (methods.mapIdx fun _ m => (Signature.ofMethod m, rank m)) =
        methods.map fun m => (Signature.ofMethod m, rank m) := by
    refine List.ext_getElem? fun i => ?_
    simp
  unfold ofMethods
  rw [hentries, hentries]
  refine compare_ofList_eq (h.map _) ?_ unknownFirst
  simpa [Function.comp_def] using hd

theorem compare_ofMethods_place (hd : (methods.map Signature.ofMethod).Nodup)
    (ha : a ∈ methods.map Signature.ofMethod) (hb : b ∈ methods.map Signature.ofMethod)
    (unknownFirst : Bool) :
    (ofMethods methods unknownFirst fun i _ => .finite i).compare a b =
      byPlace (methods.map Signature.ofMethod) a b := by
  have hentries : (methods.mapIdx fun i m => (Signature.ofMethod m, Rank.finite i)) =
      (methods.map Signature.ofMethod).mapIdx fun i v => (v, Rank.finite i) := by
    refine List.ext_getElem? fun i => ?_
    simp [Function.comp_def]
  have hget {s : Signature} (hs : s ∈ methods.map Signature.ofMethod) :
      (ofMethods methods unknownFirst fun i _ => .finite i).get? s =
        some (.finite ((methods.map Signature.ofMethod).idxOf s)) := by
    rw [ofMethods, entries_ofList (by rwa [keys_ofMethods]), hentries]
    exact lookup_mapIdx hs fun i => .finite i
  simp only [compare, hget ha, hget hb, Rank.compare_natCast, byPlace]

/-- Methods by place are told apart, even where a signature is declared more than once. -/
theorem compare_ofMethods_eq_zero {unknownFirst : Bool} (ha : a ∈ methods.map Signature.ofMethod)
    (hb : b ∈ methods.map Signature.ofMethod)
    (h : (ofMethods methods unknownFirst fun i _ => .finite i).compare a b = 0) : a = b := by
  have hget {s : Signature} (hs : s ∈ methods.map Signature.ofMethod) :
      ∃ i : Nat, (ofMethods methods unknownFirst fun i _ => .finite i).get? s = some (.finite i) ∧
        methods[i]?.map Signature.ofMethod = some s := by
    rw [← keys_ofMethods methods fun i _ => .finite i] at hs
    obtain ⟨r, hr⟩ := exists_get?_ofList hs unknownFirst
    obtain ⟨i, hi, heq⟩ := List.mem_mapIdx.mp (mem_of_get?_ofList hr)
    obtain ⟨rfl, rfl⟩ := Prod.mk.inj heq
    exact ⟨i, hr, by simp [hi]⟩
  obtain ⟨i, hi, hai⟩ := hget ha
  obtain ⟨j, hj, hbj⟩ := hget hb
  rw [compare, hi, hj] at h
  simp only [Rank.compare_natCast] at h
  obtain rfl : i = j := by
    split at h
    · cases h
    · split at h
      · cases h
      · omega
  exact Option.some.inj (hai.symm.trans hbj)

theorem compare_of_unknown (ha : t.get? a = none) (hb : t.get? b = none) : t.compare a b = 0 := by
  simp [compare, ha, hb]

end CallerFirst.RankTable
