import CallerFirst.Proofs.WorkingList

/-!
# Where traversals start once members have moved

Tables of the working list do not depend on the order of members (`startVerdict_eq`). If methods that
only places tell apart keep their order, traversals start from the same nodes in the same order
(`starts_eq`), and the arrangement is the same (`arranged_of_moved`).
-/

namespace CallerFirst

namespace Node.IsDistinct

open CallGraph

variable {key key' : String} {members members' : List Node} {root root' : Node}

theorem headers_perm (hmoved : Seen.Moved (members.map (seen key)) (members'.map (seen key'))) :
    (members'.filterMap header?).Perm (members.filterMap header?) := by
  have hheaders := hmoved.perm.filterMap Seen.header
  rwa [List.filterMap_map, List.filterMap_map] at hheaders

theorem signatures_perm (hmoved : Seen.Moved (members.map (seen key)) (members'.map (seen key'))) :
    (members'.filterMap signature?).Perm (members.filterMap signature?) := by
  have hsignatures := (headers_perm hmoved).map Signature.ofMethod
  rwa [map_ofMethod_headers, map_ofMethod_headers] at hsignatures

theorem of_moved (h : IsDistinct key members root) (h' : IsUnitOf key' members' root')
    (hmoved : Seen.Moved (members.map (seen key)) (members'.map (seen key'))) :
    IsDistinct key' members' root' := by
  have hheaders := headers_perm hmoved
  refine ⟨h', fun n' hn' d hd => ?_, ?_⟩
  · obtain ⟨n, hn, hseen⟩ := List.mem_map.mp (hmoved.perm.mem_iff.mp (List.mem_map_of_mem hn'))
    have hcalls : n.localCalls key = n'.localCalls key' := congrArg Seen.calls hseen
    obtain ⟨m, hm, hplain, hd⟩ := h.only n hn d (hcalls ▸ hd)
    exact ⟨m, hheaders.mem_iff.mpr hm, hplain, hd⟩
  · exact (signatures_perm hmoved).nodup_iff.mpr h.distinct

end Node.IsDistinct

namespace CallGraph

open Node

variable {p : Preferences} {key key' : String} {members members' : List Node} {root root' : Node}

-- ---------------------------------------------------------------------------
-- Places in the source
-- ---------------------------------------------------------------------------

section Places

variable (h : IsDistinct key members root)

include h

theorem compare_sourcePosition (ha : a ∈ members.filterMap signature?)
    (hb : b ∈ members.filterMap signature?) :
    (RankTable.sourcePosition root).compare a b =
      RankTable.byPlace (members.filterMap signature?) a b := by
  have hdistinct := h.distinct
  rw [← h.map_ofMethod_declared] at hdistinct ha hb ⊢
  exact RankTable.compare_ofMethods_place hdistinct ha hb true

theorem compare_sourcePosition_blocks (ha : a.isBlock = true) (hb : b.isBlock = true) :
    (RankTable.sourcePosition root).compare a b = 0 := by
  have hdistinct := h.distinct
  rw [← h.map_ofMethod_declared] at hdistinct
  have hnone {s : Signature} (hs : s.isBlock = true) :
      (RankTable.sourcePosition root).get? s = none := by
    rw [← Option.not_isSome_iff_eq_none, RankTable.sourcePosition,
      RankTable.isSome_get?_ofMethods hdistinct]
    intro hmem
    obtain ⟨m, -, rfl⟩ := List.mem_map.mp hmem
    rw [Seen.isBlock_ofMethod] at hs
    cases hs
  exact RankTable.compare_of_unknown (hnone ha) (hnone hb)

theorem tied_cases (ha : a ∈ (ofUnit root).ids) (hb : b ∈ (ofUnit root).ids)
    (htied : startVerdict root (ofUnit root) a b = 0) :
    (a ∈ members.filterMap signature? ∧ b ∈ members.filterMap signature?) ∨
      (a.isBlock = true ∧ b.isBlock = true) := by
  have hdistinct := h.distinct
  rw [← h.map_ofMethod_declared] at hdistinct
  have hknown (s : Signature) : ((RankTable.access root).get? s).isSome = true ↔
      s ∈ members.filterMap signature? := by
    rw [RankTable.access, RankTable.isSome_get?_ofMethods hdistinct, h.map_ofMethod_declared]
  have haccess := RankTable.isSome_eq_of_compare
    (startVerdict_eq_zero.mp htied (RankTable.access root) (by simp [startTables]))
  rw [Bool.eq_iff_iff, hknown, hknown] at haccess
  by_cases hmem : a ∈ members.filterMap signature?
  · exact .inl ⟨hmem, haccess.mp hmem⟩
  · exact .inr ⟨(h.mem_ids_cases ha).resolve_left hmem,
      (h.mem_ids_cases hb).resolve_left (mt haccess.mpr hmem)⟩

end Places

-- ---------------------------------------------------------------------------
-- Start points of moved members
-- ---------------------------------------------------------------------------

/-- Start points that go by their places have kept their order. -/
def KeepsPlaces (root root' : Node) : Prop :=
  ∀ a ∈ (ofUnit root).ids, ∀ b ∈ (ofUnit root).ids, (ofUnit root).isStart a = true →
    (ofUnit root).isStart b = true → startVerdict root (ofUnit root) a b = 0 →
    (RankTable.sourcePosition root).compare a b < 0 →
    (RankTable.sourcePosition root').compare a b < 0

def movedVerdict (root root' : Node) : Signature → Signature → Int :=
  thenBy (startVerdict root (ofUnit root)) (RankTable.sourcePosition root').compare

/-- In front of another node by the tables and the new places, or as a block among blocks. -/
def Before (root root' : Node) (a b : Signature) : Prop :=
  movedVerdict root root' a b < 0 ∨ movedVerdict root root' a b = 0 ∧
    (a.isBlock = true → b.isBlock = true →
      ((ofUnit root).ids.filter Signature.isBlock).idxOf a <
        ((ofUnit root).ids.filter Signature.isBlock).idxOf b)

theorem pairwise_idxOf_blocks {blocks nodes : List Signature}
    (hnodes : nodes.filter Signature.isBlock = blocks) (hnodup : blocks.Nodup) :
    nodes.Pairwise fun a b => a.isBlock = true → b.isBlock = true →
      blocks.idxOf a < blocks.idxOf b := by
  refine List.pairwise_filter.mp ?_
  rw [hnodes]
  exact Sorting.pairwise_idxOf hnodup

section Moved

variable (h : IsDistinct key members root) (h' : IsUnitOf key' members' root')
  (hmoved : Seen.Moved (members.map (seen key)) (members'.map (seen key')))

include h h' hmoved

theorem isStart_eq : (ofUnit root').isStart = (ofUnit root).isStart := by
  have hcalls := (sameCalls h.unit h' hmoved).calls_eq
  have hcallers (u v : Signature) :
      u ∈ (ofUnit root').callers v ↔ u ∈ (ofUnit root).callers v := by
    rw [(h.of_moved h' hmoved).matched u v, h.matched u v, hcalls]
  funext v
  rw [Bool.eq_iff_iff, isStart, isStart, List.isEmpty_iff, List.isEmpty_iff,
    List.eq_nil_iff_forall_not_mem, List.eq_nil_iff_forall_not_mem]
  simp only [hcallers]

theorem startVerdict_eq :
    startVerdict root' (ofUnit root') = startVerdict root (ofUnit root) := by
  have hsame := sameCalls h.unit h' hmoved
  obtain ⟨hmethods, hcount⟩ := Declared.ofUnit_eq h.unit
  obtain ⟨hmethods', hcount'⟩ := Declared.ofUnit_eq h'
  have hheaders := Node.IsDistinct.headers_perm hmoved
  rw [← hmethods, ← hmethods'] at hheaders
  have hnodup : ((Declared.ofUnit root').methods.map Signature.ofMethod).Nodup := by
    rw [(h.of_moved h' hmoved).map_ofMethod_declared]
    exact (h.of_moved h' hmoved).distinct
  have hinitializers : RankTable.initializers root' = RankTable.initializers root := by
    have hcounts := hmoved.perm.countP_eq Seen.isInitializer
    have hseen (key : String) : Seen.isInitializer ∘ seen key = isInitializer :=
      funext (isInitializer_seen key)
    rw [List.countP_map, List.countP_map, hseen, hseen] at hcounts
    rw [RankTable.initializers, RankTable.initializers, hcount, hcount', hcounts]
  have hconstructors : (RankTable.constructors root').compare =
      (RankTable.constructors root).compare :=
    RankTable.compare_ofMethods_eq (hheaders.filter _)
      (hnodup.sublist (List.filter_sublist.map _)) false fun _ => 0
  have hroots : (RankTable.roots (ofUnit root') (ofUnit root').ids).compare =
      (RankTable.roots (ofUnit root) (ofUnit root).ids).compare := by
    refine RankTable.compare_ofNodes_eq hsame.ids hsame.nodup fun s => ?_
    have hstart : ((ofUnit root').callers s).isEmpty = ((ofUnit root).callers s).isEmpty :=
      congrFun (isStart_eq h h' hmoved) s
    rw [hstart]
  have haccess : (RankTable.access root').compare = (RankTable.access root).compare :=
    RankTable.compare_ofMethods_eq hheaders hnodup true fun m =>
      .finite (RankTable.accessLevel m.modifiers)
  have hfanOut : (RankTable.fanOut (ofUnit root') (ofUnit root').ids).compare =
      (RankTable.fanOut (ofUnit root) (ofUnit root).ids).compare :=
    RankTable.compare_ofNodes_eq hsame.ids hsame.nodup fun s => by rw [hsame.callees s]
  funext a b
  simp only [startVerdict, startTables, List.map_cons, Comparator.firstVerdict,
    Comparator.compare, hinitializers, hconstructors, hroots, haccess, hfanOut]
  rfl

theorem starts_perm :
    (((ofUnit root').workingList p root').filter (ofUnit root').isStart).Perm
      (((ofUnit root).workingList p root).filter (ofUnit root).isStart) := by
  have hsame := sameCalls h.unit h' hmoved
  rw [isStart_eq h h' hmoved]
  refine List.Perm.filter _ ?_
  exact (Sorting.sortBy_perm _ _).trans (hsame.ids.trans (Sorting.sortBy_perm _ _).symm)

theorem starts_before (hp : p.startpoints = .heuristic) :
    (((ofUnit root').workingList p root').filter (ofUnit root').isStart).Pairwise
      (Before root root') := by
  refine List.Pairwise.sublist List.filter_sublist ?_
  have hpairwise : ((ofUnit root').workingList p root').Pairwise _ :=
    workingList_pairwise hp (pairwise_idxOf_blocks (filter_blocks_eq h.unit h' h.only hmoved)
      ((isLocal_ofUnit h.unit).nodup_ids.sublist List.filter_sublist))
  rwa [startVerdict_eq h h' hmoved] at hpairwise

/-- Old start points stand in the order of new places too, if methods that go by places have kept
their order. -/
theorem starts_before_of_keepsPlaces (hp : p.startpoints = .heuristic)
    (hplaces : KeepsPlaces root root') :
    (((ofUnit root).workingList p root).filter (ofUnit root).isStart).Pairwise
      (Before root root') := by
  have hpairwise : ((ofUnit root).workingList p root).Pairwise _ :=
    workingList_pairwise hp (pairwise_idxOf_blocks rfl
      ((isLocal_ofUnit h.unit).nodup_ids.sublist List.filter_sublist))
  refine (hpairwise.sublist List.filter_sublist).imp_of_mem fun {a b} ha hb hab => ?_
  obtain ⟨ha, hstart⟩ := List.mem_filter.mp ha
  obtain ⟨hb, hstart'⟩ := List.mem_filter.mp hb
  have ha := mem_workingList.mp ha
  have hb := mem_workingList.mp hb
  rcases hab with hlt | ⟨hzero, hbefore⟩
  · refine .inl (thenBy_neg.mpr ((thenBy_neg.mp hlt).imp id fun ⟨htied, hlt⟩ => ⟨htied, ?_⟩))
    exact hplaces a ha b hb hstart hstart' htied hlt
  · obtain ⟨htied, hsame⟩ := thenBy_eq_zero.mp hzero
    refine .inr ⟨thenBy_eq_zero.mpr ⟨htied, ?_⟩, hbefore⟩
    rcases tied_cases h ha hb htied with ⟨hma, hmb⟩ | ⟨hba, hbb⟩
    · rw [compare_sourcePosition h hma hmb, RankTable.byPlace_eq_zero hma] at hsame
      rw [hsame, RankTable.compare_self]
    · exact compare_sourcePosition_blocks (h.of_moved h' hmoved) hba hbb

theorem eq_of_before (ha : a ∈ (ofUnit root).ids) (hb : b ∈ (ofUnit root).ids)
    (hab : Before root root' a b) (hba : Before root root' b a) : a = b := by
  have hweak : Weak (movedVerdict root root') := weak_startVerdict.thenBy weak_sourcePosition
  have hflip := hweak.flip a b
  have hflip' := hweak.flip b a
  rcases hab with hab | ⟨hzero, hab⟩
  · rcases hba with hba | ⟨hba, -⟩ <;> omega
  · rcases hba with hba | ⟨-, hba⟩
    · omega
    · obtain ⟨htied, hsame⟩ := thenBy_eq_zero.mp hzero
      rcases tied_cases h ha hb htied with ⟨hma, hmb⟩ | ⟨hblock, hblock'⟩
      · rw [← (Node.IsDistinct.signatures_perm hmoved).mem_iff] at hma hmb
        rw [compare_sourcePosition (h.of_moved h' hmoved) hma hmb] at hsame
        exact (RankTable.byPlace_eq_zero hma).mp hsame
      · exact absurd (hab hblock hblock') (hba hblock' hblock).asymm

theorem starts_eq (hp : p.startpoints = .heuristic) (hplaces : KeepsPlaces root root') :
    ((ofUnit root').workingList p root').filter (ofUnit root').isStart =
      ((ofUnit root).workingList p root).filter (ofUnit root).isStart := by
  have hperm := starts_perm (p := p) h h' hmoved
  have hmem {s : Signature}
      (hs : s ∈ ((ofUnit root).workingList p root).filter (ofUnit root).isStart) :
      s ∈ (ofUnit root).ids := mem_workingList.mp (List.mem_filter.mp hs).1
  refine List.Perm.eq_of_pairwise (fun a b ha hb hab hba => ?_) (starts_before h h' hmoved hp)
    (starts_before_of_keepsPlaces h h' hmoved hp hplaces) hperm
  exact eq_of_before h h' hmoved (hmem (hperm.mem_iff.mp ha)) (hmem hb) hab hba

theorem noCycle_of_moved (hcycle : (ofUnit root).NoCycle) : (ofUnit root').NoCycle := by
  intro a b hab hba
  rw [Reaches] at hba
  rw [(sameCalls h.unit h' hmoved).calls_eq] at hab hba
  exact hcycle a b hab hba

theorem arranged_of_moved (hp : p.startpoints = .heuristic) (hcycle : (ofUnit root).NoCycle)
    (hplaces : KeepsPlaces root root') :
    (ofUnit root').arranged p root' = (ofUnit root).arranged p root := by
  rw [arranged_eq h hp hcycle,
    arranged_eq (h.of_moved h' hmoved) hp (noCycle_of_moved h h' hmoved hcycle),
    starts_eq h h' hmoved hp hplaces]
  exact Arrangement.traverse_eq (sameCalls h.unit h' hmoved) _ _ _

end Moved

end CallGraph

end CallerFirst
