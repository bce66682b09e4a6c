import CallerFirst.Proofs.SecondPass

/-!
# Appending sorts for good

Where nodes are appended, nothing is arranged in front of what is there already, and a node without
callers is met only when the traversal starts from it. So start points are arranged in the order of the
working list (`startsKept_of_append`). `resorted_keeps`: a unit whose members were put in order is in
order.
-/

namespace CallerFirst

open Java

namespace Arrangement

variable {g : CallGraph Signature} {a : Arrangement Signature}

theorem extends_insert_append (a : Arrangement Signature) (v : Signature) :
    a.ordered <+: (a.insert .append v).ordered := by
  unfold Arrangement.insert
  split
  · exact List.prefix_refl _
  · exact List.prefix_append _ _

theorem traverse_append_extends (s : Strategy) (a : Arrangement Signature) (roots : List Signature) :
    a.ordered <+: (traverse .append s a roots).ordered :=
  traverse_keeps (P := fun b => a.ordered <+: b.ordered)
    (fun b v h => h.trans (extends_insert_append b v)) s roots (List.prefix_refl _)

end Arrangement

namespace CallGraph

open Node

variable {g : CallGraph Signature} {p : Preferences} {key : String} {members : List Node}
  {root : Node}

theorem eq_of_reaches_start (hmatched : g.Matched) (hb : g.isStart b = true) (h : g.Reaches a b) :
    a = b := by
  rcases Relation.ReflTransGen.cases_tail h with hsame | ⟨c, -, hcall⟩
  · exact hsame.symm
  · have hcaller := (hmatched c b).mpr hcall
    rw [List.isEmpty_iff.mp hb] at hcaller
    cases hcaller

/-- A node without callers is arranged when its turn among the roots comes. -/
theorem idxOf_lt_of_start (hmatched : g.Matched) (s : Strategy) {front back : List Signature}
    (ha : a ∈ front) (hb : b ∉ front) (hstart : g.isStart b = true) :
    (Arrangement.traverse .append s { graph := g } (front ++ b :: back)).ordered.idxOf a <
      (Arrangement.traverse .append s { graph := g } (front ++ b :: back)).ordered.idxOf b := by
  let first := Arrangement.traverse .append s { graph := g } front
  have hfirst : a ∈ first.ordered := Arrangement.mem_traverse_root ha
  have hnot : b ∉ first.ordered := by
    intro hmem
    obtain ⟨v, hv, hvb⟩ := Arrangement.mem_traverse.mp hmem
    exact hb (eq_of_reaches_start hmatched hstart hvb ▸ hv)
  have hsplit : Arrangement.traverse .append s { graph := g } (front ++ b :: back) =
      Arrangement.traverse .append s first (b :: back) := List.foldl_append
  obtain ⟨rest, hrest⟩ := Arrangement.traverse_append_extends s first (b :: back)
  rw [hsplit, ← hrest, List.idxOf_append_of_mem hfirst, List.idxOf_append_of_notMem hnot]
  exact Nat.lt_add_right _ (List.idxOf_lt_length_of_mem hfirst)

theorem startsKept_of_append (h : IsDistinct key members root) (hp : p.startpoints = .heuristic)
    (happend : p.respectBeforeAfter = false) : (ofUnit root).StartsKept p root := by
  intro a ha b hb _ hstart htables hplace
  have hplacement : p.placement = .append := by simp [Preferences.placement, happend]
  have hany : (ofUnit root).ids.Pairwise fun _ _ => True := List.pairwise_of_forall fun _ _ => trivial
  have hordered : ((ofUnit root).workingList p root).Pairwise _ := workingList_pairwise hp hany
  have hnodup : ((ofUnit root).workingList p root).Nodup :=
    (Sorting.sortBy_perm _ _).nodup_iff.mpr (isLocal_ofUnit h.unit).nodup_ids
  obtain ⟨front, back, hsplit⟩ := List.append_of_mem (mem_workingList.mpr hb)
  rw [hsplit] at hordered hnodup
  -- behind `b` the verdict on `b` and `a` would be the other way round
  have hfront : a ∈ front := by
    have hverdict : thenBy (startVerdict root (ofUnit root)) (RankTable.sourcePosition root).compare
        a b < 0 := thenBy_neg.mpr (.inr ⟨startVerdict_eq_zero.mpr htables, hplace⟩)
    have hflip := (weak_working.flip a b).mp hverdict
    have hmem : a ∈ front ++ b :: back := hsplit ▸ mem_workingList.mpr ha
    rcases List.mem_append.mp hmem with hmem | hmem
    · exact hmem
    · rcases List.mem_cons.mp hmem with rfl | hmem
      · omega
      · have hback := (List.pairwise_cons.mp (List.pairwise_append.mp hordered).2.1).1 a hmem
        omega
  have hnot : b ∉ front := fun hmem =>
    (List.nodup_append.mp hnodup).2.2 b hmem b List.mem_cons_self rfl
  rw [arranged, hplacement, hsplit]
  exact idxOf_lt_of_start h.matched p.strategy hfront hnot hstart

end CallGraph

-- ---------------------------------------------------------------------------
-- Units with their members in order
-- ---------------------------------------------------------------------------

namespace Node

def setIndex (index : Int) : Node → Node
  | type place header members => type { place with index } header members
  | method place header body => method { place with index } header body
  | initializer place isStatic body => initializer { place with index } isStatic body
  | field place typeText names modifiers initializers =>
    field { place with index } typeText names modifiers initializers
  | enumConstant place name arguments body => enumConstant { place with index } name arguments body
  | annotationMember place name returnType => annotationMember { place with index } name returnType
  | n => n

def renumber (members : List Node) : List Node :=
  members.mapIdx fun i n => n.setIndex i

/-- The unit with the members of its first type in order, and numbered so. -/
def resorted (o : MemberOrder) : Node → Node
  | unit text package (type place header members :: others) =>
    unit text package (type place header (renumber (o.sortBody members)) :: others)
  | n => n

variable {key : String} {members : List Node} {root n : Node} {o : MemberOrder}

@[simp] theorem seen_setIndex (key : String) (i : Int) (n : Node) :
    (n.setIndex i).seen key = n.seen key := by
  cases n <;> rfl

theorem map_seen_renumber (key : String) (members : List Node) :
    (renumber members).map (seen key) = members.map (seen key) := by
  refine List.ext_getElem? fun i => ?_
  simp [renumber, Function.comp_def]

theorem IsMemberOf.setIndex (h : IsMemberOf key n) (i : Int) : IsMemberOf key (n.setIndex i) := by
  cases h with
  | method h => exact .method h
  | initializer h => exact .initializer h
  | field h => exact .field h
  | enumConstant h hbody => exact .enumConstant h hbody
  | annotationMember => exact .annotationMember
  | type h => exact .type h

theorem index_setIndex (h : IsMemberOf key n) (i : Int) : (n.setIndex i).place.index = i := by
  cases h <;> rfl

theorem isUnitOf_resorted (h : IsUnitOf key members root)
    (hsort : ∀ n ∈ o.sortBody members, n ∈ members) :
    IsUnitOf key (renumber (o.sortBody members)) (root.resorted o) := by
  cases h with
  | empty =>
    have hnone : o.sortBody [] = [] := List.eq_nil_iff_forall_not_mem.mpr fun n hn => by
      cases hsort n hn
    rw [hnone]
    exact .empty
  | typed hbinding hkey hprimary hmembers hothers =>
    refine .typed hbinding hkey hprimary (fun n hn => ?_) hothers
    obtain ⟨i, hi, rfl⟩ := List.mem_mapIdx.mp hn
    exact (hmembers _ (hsort _ (List.getElem_mem hi))).setIndex i

theorem exists_resorted_eq (o : MemberOrder) (text package : String) (types : List Node) :
    ∃ types', (unit text package types).resorted o = unit text package types' := by
  unfold resorted
  split
  · rename_i heq
    cases heq
    exact ⟨_, rfl⟩
  · exact ⟨types, rfl⟩

theorem IsMemberOf.isMember (h : IsMemberOf key n) : n.isMember = true := by
  cases h <;> rfl

theorem IsUnitOf.isMemberOf (h : IsUnitOf key members root) (hn : n ∈ members) :
    IsMemberOf key n := by
  cases h with
  | empty => cases hn
  | typed _ _ _ hmembers => exact hmembers n hn

theorem renumber_pairwise (h : ∀ n ∈ members, IsMemberOf key n) :
    (renumber members).Pairwise fun m n => m.place.index < n.place.index := by
  refine List.pairwise_iff_getElem.mpr fun i j hi hj hij => ?_
  simp only [renumber, List.getElem_mapIdx]
  rw [index_setIndex (h _ (List.getElem_mem _)), index_setIndex (h _ (List.getElem_mem _))]
  omega

end Node

namespace Sorter

open CallGraph Node

variable {p : Preferences} {key : String} {members : List Node} {root : Node}

/-- A unit whose members were put in order is in order, if nodes are appended and no calls go in a
circle. -/
theorem resorted_keeps (hp : ByCalls p) (happend : p.respectBeforeAfter = false)
    (hread : readUnit text = .ok root) (hunit : IsUnitOf key members root)
    (hdistinct : (members.filterMap signature?).Nodup) (hcycle : (ofUnit root).NoCycle)
    (path : Option String) :
    let sorted := renumber ((orderOf p root).sortBody members)
    let root' := root.resorted (orderOf p root)
    IsUnitOf key sorted root' ∧
      ((orderOf p root').sort (sorted.filter (·.mayMove))).map Prod.snd =
        sorted.filter (·.mayMove) ∧
      ∃ outcome, preferred.sortUnit p path root' = .ok outcome ∧ outcome.sortedSource = text := by
  intro sorted root'
  obtain ⟨hbody, hunmixed⟩ := inBody_of_read hread hunit
  have hsortable : IsSortable key members root :=
    ⟨⟨hunit, callsOnly_of_read hread hunit, hdistinct⟩, hbody, hunmixed⟩
  have hmem {n : Node} (hn : n ∈ (orderOf p root).sortBody members) : n ∈ members :=
    (MemberOrder.sortBody_perm rfl members).mem_iff.mp hn
  have hunit' : IsUnitOf key sorted root' := isUnitOf_resorted hunit fun n => hmem
  have hstarts := startsKept_of_append hsortable.toIsDistinct hp.startpoints happend
  have hsorted : (orderOf p root').sort (sorted.filter (·.mayMove)) =
      MemberOrder.tag (sorted.filter (·.mayMove)) :=
    sort_again hsortable hunit' hp (map_seen_renumber key _)
      (renumber_pairwise fun n hn => hunit.isMemberOf (hmem hn)) hcycle hstarts
  refine ⟨hunit', ?_, ?_⟩
  · rw [hsorted, MemberOrder.map_snd_tag]
  · obtain ⟨package, types, rfl⟩ := exists_unit_of_read hread
    obtain ⟨types', htypes⟩ := exists_resorted_eq (orderOf p (.unit text package types)) text package types
    have hmember : ∀ m ∈ sorted, m.isMember = true := fun m hm =>
      (hunit'.isMemberOf hm).isMember
    rw [show root' = unit text package types' from htypes] at hunit' hsorted ⊢
    exact sortUnit_of_sorted hunit' hmember hsorted path

/-- Two methods that nothing calls and that share what they call, a block and a field that call, and a
constructor behind them all. -/
def scatteredStarts : String :=
  "class A{void d(){}void b(){c();d();}int f=e();void c(){}void e(){d();}static{c();}void a(){c();}A(){e();}}"

theorem resorted_keeps_scattered :
    ∃ root members, readUnit scatteredStarts = .ok root ∧ (members.filterMap signature?).Nodup ∧
      (ofUnit root).NoCycle ∧
      let o := orderOf { respectBeforeAfter := false } root
      let sorted := renumber (o.sortBody members)
      (o.sort (members.filter (·.mayMove))).map (·.1) = [2, 5, 7, 3, 4, 0, 1, 6] ∧
      ((orderOf { respectBeforeAfter := false } (root.resorted o)).sort
        (sorted.filter (·.mayMove))).map Prod.snd = sorted.filter (·.mayMove) := by
  have h : (readBody? scatteredStarts).any fun found =>
      decide ((found.2.filterMap signature?).Nodup ∧ (ofUnit found.1).NoCycle ∧
        ((orderOf { respectBeforeAfter := false } found.1).sort
          (found.2.filter (·.mayMove))).map (·.1) = [2, 5, 7, 3, 4, 0, 1, 6]) := by
    decide +kernel
  obtain ⟨⟨root, members⟩, hbody, h⟩ := Option.any_eq_true _ _ |>.mp h
  obtain ⟨hdistinct, hcycle, hmoves⟩ := of_decide_eq_true h
  obtain ⟨key, hread, hunit, -⟩ := exists_unit_of_readBody? hbody
  obtain ⟨-, hkeeps, -⟩ := resorted_keeps (p := { respectBeforeAfter := false })
    ⟨rfl, rfl, rfl, rfl⟩ rfl hread hunit hdistinct hcycle none
  exact ⟨root, members, hread, hdistinct, hcycle, hmoves, hkeeps⟩

end Sorter

end CallerFirst
