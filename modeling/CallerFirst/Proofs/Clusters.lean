import CallerFirst.MethodOrder
import CallerFirst.Proofs.CallGraph.Declared
import CallerFirst.Proofs.CallGraph.OfUnit
import CallerFirst.Proofs.Sorting

/-!
# Clusters partition the methods

`ofUnit_partitions`: of the signatures that a unit declares and that are among the nodes, each is in
one cluster, before and after the members of the clusters are sorted. The main signature of a cluster is
the one declared first, and where only overloads are kept together, a cluster is what shares a name.
-/

namespace CallerFirst

namespace Cluster

variable {rules : Rules} {seed : Method} {clustered members : List Signature}
  {methods seeds : List Method} {s : Signature}

-- ---------------------------------------------------------------------------
-- One cluster
-- ---------------------------------------------------------------------------

def gatherFrom (rules : Rules) (seed : Method) (clustered members : List Signature)
    (methods : List Method) : List Signature :=
  methods.foldl (fun members m =>
    let s := Signature.ofMethod m
    if clustered.contains s || members.contains s || !attracts rules seed m then members
    else members ++ [s]) members

theorem gather_eq : gather rules seed clustered methods =
    gatherFrom rules seed clustered [.ofMethod seed] methods := rfl

theorem gatherFrom_cons (m : Method) (methods : List Method) :
    gatherFrom rules seed clustered members (m :: methods) =
      if .ofMethod m ∉ clustered ∧ .ofMethod m ∉ members ∧ attracts rules seed m = true then
        gatherFrom rules seed clustered (members ++ [.ofMethod m]) methods
      else gatherFrom rules seed clustered members methods := by
  rw [gatherFrom, List.foldl_cons]
  by_cases h : .ofMethod m ∉ clustered ∧ .ofMethod m ∉ members ∧ attracts rules seed m = true
  · simp [h, gatherFrom]
  · rw [if_neg h]
    simp only [not_and_or, not_not, Bool.not_eq_true] at h
    rcases h with h | h | h <;> simp [h, gatherFrom]

theorem gatherFrom_starts : members <+: gatherFrom rules seed clustered members methods := by
  induction methods generalizing members with
  | nil => exact List.prefix_refl _
  | cons m methods ih =>
    rw [gatherFrom_cons]
    split
    · exact (List.prefix_append _ _).trans ih
    · exact ih

theorem nodup_gatherFrom (h : members.Nodup) :
    (gatherFrom rules seed clustered members methods).Nodup := by
  induction methods generalizing members with
  | nil => exact h
  | cons m methods ih =>
    rw [gatherFrom_cons]
    split
    · rename_i hm
      refine ih (List.nodup_append.mpr ⟨h, List.nodup_singleton _, fun t ht u hu htu => ?_⟩)
      rw [List.mem_singleton.mp hu] at htu
      exact hm.2.1 (htu ▸ ht)
    · exact ih h

theorem mem_gatherFrom :
    s ∈ gatherFrom rules seed clustered members methods ↔
      s ∈ members ∨
        (s ∉ clustered ∧ ∃ m ∈ methods, attracts rules seed m = true ∧ .ofMethod m = s) := by
  induction methods generalizing members with
  | nil => simp [gatherFrom]
  | cons m methods ih =>
    rw [gatherFrom_cons]
    split
    · rename_i hm
      rw [ih]
      grind
    · rename_i hm
      rw [ih]
      grind

theorem mem_gather (h : .ofMethod seed ∉ clustered) :
    s ∈ gather rules seed clustered methods ↔ s ∉ clustered ∧
      (s = .ofMethod seed ∨ ∃ m ∈ methods, attracts rules seed m = true ∧ .ofMethod m = s) := by
  rw [gather_eq, mem_gatherFrom, List.mem_singleton]
  constructor
  · rintro (rfl | ⟨hs, hm⟩)
    · exact ⟨h, .inl rfl⟩
    · exact ⟨hs, .inr hm⟩
  · rintro ⟨hs, rfl | hm⟩
    · exact .inl rfl
    · exact .inr ⟨hs, hm⟩

theorem exists_gather_eq : ∃ rest, gather rules seed clustered methods = .ofMethod seed :: rest := by
  obtain ⟨rest, h⟩ : [.ofMethod seed] <+: gatherFrom rules seed clustered [.ofMethod seed] methods :=
    gatherFrom_starts
  exact ⟨rest, h.symm⟩

-- ---------------------------------------------------------------------------
-- All clusters
-- ---------------------------------------------------------------------------

/-- Groups of signatures of the methods, apart from those clustered already, that have one place for
each of the seeds. -/
structure Splits (methods : List Method) (clustered : List Signature) (seeds : List Method)
    (groups : List (List Signature)) : Prop where
  nodup : groups.flatten.Nodup
  fresh : ∀ s ∈ groups.flatten, s ∉ clustered
  declared : ∀ s ∈ groups.flatten, s ∈ methods.map .ofMethod
  covers : ∀ m ∈ seeds, .ofMethod m ∈ clustered ∨ .ofMethod m ∈ groups.flatten

theorem partition_splits (hseeds : ∀ m ∈ seeds, m ∈ methods) :
    Splits methods clustered seeds (partition rules methods clustered seeds) := by
  induction seeds generalizing clustered with
  | nil => exact ⟨.nil, by simp [partition], by simp [partition], by simp⟩
  | cons seed seeds ih =>
    have hrest : ∀ m ∈ seeds, m ∈ methods := fun m hm => hseeds m (.tail _ hm)
    rw [partition]
    split
    · rename_i hseed
      obtain ⟨hnodup, hfresh, hdeclared, hcovers⟩ := @ih clustered hrest
      refine ⟨hnodup, hfresh, hdeclared, List.forall_mem_cons.mpr ⟨.inl ?_, hcovers⟩⟩
      exact List.contains_iff_mem.mp hseed
    · rename_i hseed
      rw [List.contains_iff_mem] at hseed
      have hmem (s : Signature) : s ∈ gather rules seed clustered methods ↔ _ := mem_gather hseed
      obtain ⟨hnodup, hfresh, hdeclared, hcovers⟩ :=
        @ih (clustered ++ gather rules seed clustered methods) hrest
      simp only [List.mem_append, not_or] at hfresh hcovers
      refine ⟨?_, ?_, ?_, List.forall_mem_cons.mpr ⟨.inr ?_, fun m hm => ?_⟩⟩
      · rw [List.flatten_cons, List.nodup_append]
        refine ⟨nodup_gatherFrom (List.nodup_singleton _), hnodup, fun s hs t ht hst => ?_⟩
        exact (hfresh t ht).2 (hst ▸ hs)
      · intro s hs
        rcases List.mem_append.mp hs with hs | hs
        · exact ((hmem s).mp hs).1
        · exact (hfresh s hs).1
      · intro s hs
        rcases List.mem_append.mp hs with hs | hs
        · obtain ⟨-, rfl | ⟨m, hm, -, rfl⟩⟩ := (hmem s).mp hs
          · exact List.mem_map_of_mem (hseeds seed List.mem_cons_self)
          · exact List.mem_map_of_mem hm
        · exact hdeclared s hs
      · exact List.mem_append_left _ ((hmem _).mpr ⟨hseed, .inl rfl⟩)
      · rcases hcovers m hm with (hc | hc) | hc
        · exact .inl hc
        · exact .inr (List.mem_append_left _ hc)
        · exact .inr (List.mem_append_right _ hc)

/-- Methods in front of a seed are clustered when the seed is reached, so it is the first of its
cluster. -/
theorem partition_earliest {before : List Method} (hbefore : ∀ m ∈ before, .ofMethod m ∈ clustered)
    (h : group ∈ partition rules (before ++ seeds) clustered seeds) :
    ∃ main rest, group = main :: rest ∧ ∀ s ∈ group,
      ((before ++ seeds).map Signature.ofMethod).idxOf main ≤
        ((before ++ seeds).map Signature.ofMethod).idxOf s := by
  induction seeds generalizing before clustered with
  | nil => cases h
  | cons seed seeds ih =>
    have hsplit : before ++ seed :: seeds = (before ++ [seed]) ++ seeds := by simp
    rw [partition] at h
    split at h
    · rename_i hseed
      rw [hsplit] at h ⊢
      refine ih (fun m hm => ?_) h
      rcases List.mem_append.mp hm with hm | hm
      · exact hbefore m hm
      · rw [List.mem_singleton.mp hm]
        exact List.contains_iff_mem.mp hseed
    · rename_i hseed
      rw [List.contains_iff_mem] at hseed
      rcases List.mem_cons.mp h with rfl | h
      · obtain ⟨rest, hgather⟩ : ∃ rest, gather rules seed clustered (before ++ seed :: seeds) =
            .ofMethod seed :: rest := exists_gather_eq
        refine ⟨.ofMethod seed, rest, hgather, fun s hs => ?_⟩
        have hfresh := ((mem_gather hseed).mp hs).1
        have hnot {t : Signature} (ht : t ∉ clustered) : t ∉ before.map Signature.ofMethod := by
          intro hmem
          obtain ⟨m, hm, rfl⟩ := List.mem_map.mp hmem
          exact ht (hbefore m hm)
        rw [List.map_append, List.idxOf_append_of_notMem (hnot hseed),
          List.idxOf_append_of_notMem (hnot hfresh), List.map_cons, List.idxOf_cons_self]
        omega
      · rw [hsplit] at h ⊢
        refine ih (fun m hm => List.mem_append.mpr ?_) h
        rcases List.mem_append.mp hm with hm | hm
        · exact .inl (hbefore m hm)
        · rw [List.mem_singleton.mp hm]
          exact .inr ((mem_gather hseed).mpr ⟨hseed, .inl rfl⟩)

theorem partition_overloads (hseeds : ∀ m ∈ seeds, m ∈ methods)
    (hnames : ∀ m ∈ methods, (Signature.ofMethod m).name = m.name)
    (hclosed : ∀ s ∈ clustered, ∀ t ∈ methods.map Signature.ofMethod, s.name = t.name → t ∈ clustered)
    (h : group ∈ partition ⟨false, true⟩ methods clustered seeds) :
    ∃ name, ∀ s, s ∈ group ↔ s ∈ methods.map Signature.ofMethod ∧ s.name = name := by
  induction seeds generalizing clustered with
  | nil => cases h
  | cons seed seeds ih =>
    have hrest : ∀ m ∈ seeds, m ∈ methods := fun m hm => hseeds m (.tail _ hm)
    have hseedMem := hseeds seed List.mem_cons_self
    rw [partition] at h
    split at h
    · exact ih hrest hclosed h
    · rename_i hseed
      rw [List.contains_iff_mem] at hseed
      have hgroup (s : Signature) : s ∈ gather ⟨false, true⟩ seed clustered methods ↔
          s ∈ methods.map Signature.ofMethod ∧ s.name = seed.name := by
        rw [mem_gather hseed]
        constructor
        · rintro ⟨-, rfl | ⟨m, hm, hattracts, rfl⟩⟩
          · exact ⟨List.mem_map_of_mem hseedMem, hnames seed hseedMem⟩
          · exact ⟨List.mem_map_of_mem hm, (hnames m hm).trans (by simpa [attracts] using hattracts)⟩
        · rintro ⟨hs, hname⟩
          refine ⟨fun hc => hseed (hclosed s hc _ (List.mem_map_of_mem hseedMem) ?_), .inr ?_⟩
          · rw [hname, hnames seed hseedMem]
          · obtain ⟨m, hm, rfl⟩ := List.mem_map.mp hs
            exact ⟨m, hm, by simpa [attracts, ← hnames m hm] using hname, rfl⟩
      rcases List.mem_cons.mp h with rfl | h
      · exact ⟨seed.name, hgroup⟩
      · refine ih hrest (fun s hs t ht hst => ?_) h
        rcases List.mem_append.mp hs with hs | hs
        · exact List.mem_append_left _ (hclosed s hs t ht hst)
        · exact List.mem_append_right _ ((hgroup t).mpr ⟨ht, hst ▸ ((hgroup s).mp hs).2⟩)

-- ---------------------------------------------------------------------------
-- Clusters of a unit
-- ---------------------------------------------------------------------------

open Node

/-- Clusters of the methods among the members of a type that are among the nodes. -/
structure Partitions (rules : Rules) (nodes : List Signature) (body : List Node)
    (clusters : List (Cluster Signature)) : Prop where
  count : ∀ s, (clusters.flatMap signatures).count s =
    if s ∈ body.filterMap signature? ∧ s ∈ nodes then 1 else 0
  main_mem : ∀ c ∈ clusters, c.main ∈ c.signatures
  main_first : ∀ c ∈ clusters, ∀ s ∈ c.signatures,
    (body.filterMap signature?).idxOf c.main ≤ (body.filterMap signature?).idxOf s
  /-- With overloads only, sharing a cluster is sharing a name. -/
  overloads : rules = ⟨false, true⟩ → ∀ m ∈ body.filterMap header?, .ofMethod m ∈ nodes →
    ∀ m' ∈ body.filterMap header?, .ofMethod m' ∈ nodes →
      ((∃ c ∈ clusters, .ofMethod m ∈ c.signatures ∧ .ofMethod m' ∈ c.signatures) ↔ m.name = m'.name)

variable {g : CallGraph Signature} {nodes : List Signature} {body : List Node} {unit : Node}

theorem signatures_eq (c : Cluster Signature) : c.signatures = c.members :=
  List.map_id _

theorem ofNodes?_cons (v : Signature) (rest : List Signature) :
    ∃ c, ofNodes? g (v :: rest) = some c ∧ c.main = v ∧ c.members = v :: rest :=
  ⟨_, rfl, rfl, rfl⟩

theorem filterMap_ofNodes? {groups : List (List Signature)} (h : ∀ group ∈ groups, group ≠ []) :
    (groups.filterMap (ofNodes? g)).map signatures = groups := by
  induction groups with
  | nil => rfl
  | cons group groups ih =>
    obtain ⟨hgroup, hrest⟩ := List.forall_mem_cons.mp h
    obtain ⟨v, rest, rfl⟩ := List.exists_cons_of_ne_nil hgroup
    obtain ⟨c, hc, -, hmembers⟩ := ofNodes?_cons (g := g) v rest
    rw [List.filterMap_cons_some hc, List.map_cons, ih hrest, signatures_eq, hmembers]

theorem idxOf_le_of_filter {xs : List Signature} {q : Signature → Bool} (ha : q a = true)
    (hb : q b = true) (h : (xs.filter q).idxOf a ≤ (xs.filter q).idxOf b) :
    xs.idxOf a ≤ xs.idxOf b := by
  induction xs with
  | nil => exact Nat.le_refl _
  | cons x xs ih =>
    by_cases hx : q x = true
    · rw [List.filter_cons_of_pos hx] at h
      simp only [List.idxOf_cons] at h ⊢
      grind
    · rw [List.filter_cons_of_neg hx] at h
      have hne {s : Signature} (hs : q s = true) : x ≠ s := fun heq => hx (heq ▸ hs)
      rw [List.idxOf_cons_ne _ (hne ha), List.idxOf_cons_ne _ (hne hb)]
      exact Nat.succ_le_succ (ih h)

def kept (nodes : List Signature) (body : List Node) : List Method :=
  (body.filterMap header?).filter fun m => nodes.contains (.ofMethod m)

theorem map_ofMethod_kept (nodes : List Signature) (body : List Node) :
    (kept nodes body).map Signature.ofMethod = (body.filterMap signature?).filter nodes.contains := by
  rw [← map_ofMethod_headers, List.filter_map]
  rfl

theorem mem_map_kept : s ∈ (kept nodes body).map Signature.ofMethod ↔
    s ∈ body.filterMap signature? ∧ s ∈ nodes := by
  rw [map_ofMethod_kept, List.mem_filter, List.contains_iff_mem]

def groups (rules : Rules) (nodes : List Signature) (body : List Node) : List (List Signature) :=
  partition rules (kept nodes body) [] (kept nodes body)

theorem groups_first (h : group ∈ groups rules nodes body) :
    ∃ main rest, group = main :: rest ∧ ∀ s ∈ group,
      ((kept nodes body).map Signature.ofMethod).idxOf main ≤
        ((kept nodes body).map Signature.ofMethod).idxOf s :=
  @partition_earliest _ _ _ _ [] (by simp) h

theorem mem_flatten_groups :
    s ∈ (groups rules nodes body).flatten ↔ s ∈ body.filterMap signature? ∧ s ∈ nodes := by
  have hsplits : Splits (kept nodes body) [] (kept nodes body) (groups rules nodes body) :=
    partition_splits fun _ => id
  rw [← mem_map_kept]
  refine ⟨hsplits.declared s, fun hs => ?_⟩
  obtain ⟨m, hm, rfl⟩ := List.mem_map.mp hs
  exact (hsplits.covers m hm).resolve_left (by simp)

section Unit

variable (h : IsUnitOf key body unit)

include h

theorem ofUnit_eq : ofUnit rules g nodes unit = (groups rules nodes body).filterMap (ofNodes? g) := by
  rw [ofUnit, (Declared.ofUnit_eq h).1]
  rfl

theorem map_signatures_ofUnit :
    (ofUnit rules g nodes unit).map signatures = groups rules nodes body := by
  rw [ofUnit_eq h, filterMap_ofNodes? fun group hgroup => ?_]
  obtain ⟨main, rest, rfl, -⟩ := groups_first hgroup
  exact List.cons_ne_nil _ _

theorem exists_group (hc : c ∈ ofUnit rules g nodes unit) :
    ∃ rest, c.signatures = c.main :: rest ∧ c.signatures ∈ groups rules nodes body := by
  rw [ofUnit_eq h] at hc
  obtain ⟨group, hgroup, hc⟩ := List.mem_filterMap.mp hc
  obtain ⟨main, rest, rfl, -⟩ := groups_first hgroup
  cases hc
  exact ⟨rest, signatures_eq _, (signatures_eq _).symm ▸ hgroup⟩

theorem count_flatMap_ofUnit (s : Signature) :
    ((ofUnit rules g nodes unit).flatMap signatures).count s =
      if s ∈ body.filterMap signature? ∧ s ∈ nodes then 1 else 0 := by
  have hnodup : (groups rules nodes body).flatten.Nodup := (partition_splits fun _ => id).nodup
  rw [List.flatMap_def, map_signatures_ofUnit h, hnodup.count]
  exact if_congr mem_flatten_groups rfl rfl

theorem main_first_ofUnit (hc : c ∈ ofUnit rules g nodes unit) (hs : s ∈ c.signatures) :
    (body.filterMap signature?).idxOf c.main ≤ (body.filterMap signature?).idxOf s := by
  obtain ⟨rest, hsignatures, hgroup⟩ := exists_group h hc
  obtain ⟨main, rest', hcons, hle⟩ := groups_first hgroup
  obtain ⟨rfl, -⟩ := List.cons.inj (hcons.symm.trans hsignatures)
  have hnodes {t : Signature} (ht : t ∈ c.signatures) : nodes.contains t = true :=
    List.contains_iff_mem.mpr
      (mem_flatten_groups.mp (List.mem_flatten.mpr ⟨c.signatures, hgroup, ht⟩)).2
  have hle := hle s hs
  rw [map_ofMethod_kept] at hle
  exact idxOf_le_of_filter (hnodes (hcons ▸ List.mem_cons_self)) (hnodes hs) hle

theorem overloads_ofUnit
    (hnames : ∀ m ∈ body.filterMap header?, (Signature.ofMethod m).name = m.name)
    (hm : m ∈ body.filterMap header?) (hnode : .ofMethod m ∈ nodes)
    (hm' : m' ∈ body.filterMap header?) (hnode' : .ofMethod m' ∈ nodes) :
    (∃ c ∈ ofUnit ⟨false, true⟩ g nodes unit,
      .ofMethod m ∈ c.signatures ∧ .ofMethod m' ∈ c.signatures) ↔ m.name = m'.name := by
  have hkept {m : Method} (hm : m ∈ kept nodes body) : (Signature.ofMethod m).name = m.name :=
    hnames m (List.mem_of_mem_filter hm)
  have hgroups {group : List Signature} (hgroup : group ∈ groups ⟨false, true⟩ nodes body) :=
    partition_overloads (fun _ => id) (fun _ => hkept) (by simp) hgroup
  have hmem {m : Method} (hm : m ∈ body.filterMap header?) (hnode : .ofMethod m ∈ nodes) :
      m ∈ kept nodes body := List.mem_filter.mpr ⟨hm, List.contains_iff_mem.mpr hnode⟩
  rw [← hkept (hmem hm hnode), ← hkept (hmem hm' hnode')]
  constructor
  · rintro ⟨c, hc, hs, hs'⟩
    obtain ⟨-, -, hgroup⟩ := exists_group h hc
    obtain ⟨name, hname⟩ := hgroups hgroup
    exact (((hname _).mp hs).2).trans ((hname _).mp hs').2.symm
  · intro heq
    have hflat : .ofMethod m ∈ ((ofUnit ⟨false, true⟩ g nodes unit).map signatures).flatten := by
      rw [map_signatures_ofUnit h, mem_flatten_groups, ← map_ofMethod_headers]
      exact ⟨List.mem_map_of_mem hm, hnode⟩
    obtain ⟨c, hc, hs⟩ := List.mem_flatMap.mp (List.flatMap_def ▸ hflat)
    obtain ⟨-, -, hgroup⟩ := exists_group h hc
    obtain ⟨name, hname⟩ := hgroups hgroup
    exact ⟨c, hc, hs, (hname _).mpr ⟨List.mem_map_of_mem (hmem hm' hnode'), heq ▸ ((hname _).mp hs).2⟩⟩

end Unit

theorem partitions_ofUnit (h : IsBound key body unit) :
    Partitions rules nodes body (ofUnit rules g nodes unit) where
  count := count_flatMap_ofUnit h.unit
  main_mem c hc := by
    obtain ⟨rest, hsignatures, -⟩ := exists_group h.unit hc
    rw [hsignatures]
    exact List.mem_cons_self
  main_first c hc s hs := main_first_ofUnit h.unit hc hs
  overloads hrules m hm hnode m' hm' hnode' := by
    subst hrules
    have hnames (m : Method) (hm : m ∈ body.filterMap header?) := Signature.name_ofMethod (h.written m hm).name
    exact overloads_ofUnit h.unit hnames hm hnode hm' hnode'

-- ---------------------------------------------------------------------------
-- Sorting the members of clusters
-- ---------------------------------------------------------------------------

@[simp] theorem main_sortMembers (p : Preferences) (unit : Node) (g : CallGraph Signature)
    (c : Cluster Signature) : (c.sortMembers p unit g).main = c.main := by
  unfold sortMembers
  split <;> rfl

theorem append_rest_perm {found members : List Signature} (hfound : found.Nodup)
    (hmembers : members.Nodup) (hsub : ∀ s ∈ found, s ∈ members) :
    (found ++ members.filter (!found.contains ·)).Perm members := by
  have hfront : found.Perm (members.filter found.contains) := by
    refine (List.perm_ext_iff_of_nodup hfound (hmembers.filter _)).mpr fun s => ?_
    rw [List.mem_filter, List.contains_iff_mem]
    exact ⟨fun hs => ⟨hsub s hs, hs⟩, fun hs => hs.2⟩
  exact (hfront.append_right _).trans (List.filter_append_perm _ _)

theorem signatures_sortMembers_perm (h : IsBound key body unit) (p : Preferences)
    (g : CallGraph Signature) {c : Cluster Signature} (hnodup : c.signatures.Nodup) :
    (c.sortMembers p unit g).signatures.Perm c.signatures := by
  rw [signatures_eq] at hnodup
  rw [signatures_eq, signatures_eq, sortMembers]
  split
  · exact List.Perm.refl _
  · have hsorted (comparator : Comparator) :
        (comparator.sort (CallGraph.ofUnitWithin c.members unit).ids).Nodup :=
      (Sorting.sortBy_perm _ _).nodup_iff.mpr (CallGraph.induced_ofUnitWithin h.unit h.only _).nodup_ids
    refine append_rest_perm ((hsorted _).filter _) hnodup fun s hs => ?_
    exact List.contains_iff_mem.mp (List.mem_filter.mp hs).2

theorem Partitions.map {clusters : List (Cluster Signature)} (h : Partitions rules nodes body clusters)
    {f : Cluster Signature → Cluster Signature} (hmain : ∀ c ∈ clusters, (f c).main = c.main)
    (hperm : ∀ c ∈ clusters, (f c).signatures.Perm c.signatures) :
    Partitions rules nodes body (clusters.map f) where
  count s := by
    rw [List.flatMap_map, ← h.count s]
    exact (List.Perm.flatMap_left clusters hperm).count_eq s
  main_mem := by
    simp only [List.forall_mem_map]
    intro c hc
    rw [hmain c hc, (hperm c hc).mem_iff]
    exact h.main_mem c hc
  main_first := by
    simp only [List.forall_mem_map]
    intro c hc s hs
    rw [hmain c hc]
    exact h.main_first c hc s ((hperm c hc).mem_iff.mp hs)
  overloads hrules m hm hnode m' hm' hnode' := by
    rw [← h.overloads hrules m hm hnode m' hm' hnode']
    simp only [List.mem_map, exists_exists_and_eq_and]
    refine exists_congr fun c => and_congr_right fun hc => ?_
    rw [(hperm c hc).mem_iff, (hperm c hc).mem_iff]

theorem Partitions.nodup {clusters : List (Cluster Signature)}
    (h : Partitions rules nodes body clusters) : (clusters.flatMap signatures).Nodup := by
  rw [List.nodup_iff_count_le_one]
  intro s
  rw [h.count s]
  split <;> omega

theorem Partitions.nodup_signatures {clusters : List (Cluster Signature)}
    (h : Partitions rules nodes body clusters) (hc : c ∈ clusters) : c.signatures.Nodup :=
  (List.nodup_flatMap.mp h.nodup).1 c hc

theorem Partitions.mem_iff {clusters : List (Cluster Signature)}
    (h : Partitions rules nodes body clusters) :
    s ∈ clusters.flatMap signatures ↔ s ∈ body.filterMap signature? ∧ s ∈ nodes := by
  rw [← List.count_pos_iff, h.count s]
  split
  · rename_i hs
    exact ⟨fun _ => hs, fun _ => Nat.one_pos⟩
  · rename_i hs
    exact ⟨fun hpos => absurd hpos (Nat.lt_irrefl 0), fun h => absurd h hs⟩

theorem Partitions.declared {clusters : List (Cluster Signature)}
    (h : Partitions rules nodes body clusters) (hc : c ∈ clusters) (hs : s ∈ c.signatures) :
    s ∈ body.filterMap signature? :=
  (h.mem_iff.mp (List.mem_flatMap.mpr ⟨c, hc, hs⟩)).1

theorem ofUnit_sortMembers_perm (h : IsBound key body unit) (p : Preferences)
    (hc : c ∈ ofUnit rules g nodes unit) : (c.sortMembers p unit g).signatures.Perm c.signatures :=
  signatures_sortMembers_perm h p g ((partitions_ofUnit h).nodup_signatures hc)

theorem partitions_sorted (h : IsBound key body unit) (p : Preferences) :
    Partitions rules nodes body ((ofUnit rules g nodes unit).map (·.sortMembers p unit g)) :=
  (partitions_ofUnit h).map (fun c _ => main_sortMembers p unit g c)
    fun _ hc => ofUnit_sortMembers_perm h p hc

/-- Clusters of a unit that is read partition the methods which are among the nodes. Sorting their
members leaves the main signatures alone and only moves members. -/
theorem ofUnit_partitions (hread : Java.readUnit text = .ok unit) (rules : Rules)
    (g : CallGraph Signature) (nodes : List Signature) (p : Preferences) :
    ∃ key body, IsUnitOf key body unit ∧
      Partitions rules nodes body (ofUnit rules g nodes unit) ∧
      Partitions rules nodes body ((ofUnit rules g nodes unit).map (·.sortMembers p unit g)) ∧
      ∀ c ∈ ofUnit rules g nodes unit, (c.sortMembers p unit g).main = c.main ∧
        (c.sortMembers p unit g).signatures.Perm c.signatures := by
  obtain ⟨key, body, hbound⟩ := Java.readUnit_isBound hread
  exact ⟨key, body, hbound.unit, partitions_ofUnit hbound, partitions_sorted hbound p,
    fun c hc => ⟨main_sortMembers p unit g c, ofUnit_sortMembers_perm hbound p hc⟩⟩

def overloadsApart : String :=
  "class A{void f(int i){}void g(){}void f(){f(1);}void h(){}void f(char c){f();}}"

def someNodes : List Signature :=
  [⟨"g()"⟩, ⟨"f(char)"⟩, ⟨"f()"⟩, ⟨"k()"⟩, ⟨"f(int)"⟩]

theorem ofUnit_partitions_overloads :
    ∃ unit key body, Java.readUnit overloadsApart = .ok unit ∧ IsUnitOf key body unit ∧
      Partitions ⟨false, true⟩ someNodes body (ofUnit ⟨false, true⟩ (.ofUnit unit) someNodes unit) ∧
      Partitions ⟨false, true⟩ someNodes body
        ((ofUnit ⟨false, true⟩ (.ofUnit unit) someNodes unit).map
          (·.sortMembers {} unit (.ofUnit unit))) ∧
      ((ofUnit ⟨false, true⟩ (.ofUnit unit) someNodes unit).map
          (·.sortMembers {} unit (.ofUnit unit))).map (fun c => (c.main, c.signatures)) =
        [(⟨"f(int)"⟩, [⟨"f(char)"⟩, ⟨"f()"⟩, ⟨"f(int)"⟩]), (⟨"g()"⟩, [⟨"g()"⟩])] := by
  obtain ⟨unit, top, body, hread, -, -, hclusters⟩ :=
    Java.exists_of_readBody? overloadsApart (fun unit _ =>
      ((ofUnit ⟨false, true⟩ (.ofUnit unit) someNodes unit).map
          (·.sortMembers {} unit (.ofUnit unit))).map (fun c => (c.main, c.signatures)) =
        [(⟨"f(int)"⟩, [⟨"f(char)"⟩, ⟨"f()"⟩, ⟨"f(int)"⟩]), (⟨"g()"⟩, [⟨"g()"⟩])])
      (by decide +kernel)
  obtain ⟨key, body, hunit, hapart, hsorted, -⟩ :=
    ofUnit_partitions hread ⟨false, true⟩ (.ofUnit unit) someNodes {}
  exact ⟨unit, key, body, hread, hunit, hapart, hsorted, hclusters⟩

end Cluster

end CallerFirst
