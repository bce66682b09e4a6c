import CallerFirst.Proofs.CallGraph.Moved
import CallerFirst.Proofs.MethodOrder
import CallerFirst.Proofs.RankTable
import CallerFirst.Proofs.StartPoints
import CallerFirst.Proofs.WeakOrder

/-!
# Where traversals start

The working list goes by tables that do not depend on places in the source, and by those places where
the tables leave a pair open. Nodes without callers stand in front (`workingList_starts`), so an
arrangement of a graph without cycles goes by those alone (`arranged_eq`).
-/

namespace CallerFirst

-- ---------------------------------------------------------------------------
-- Units whose methods have different signatures
-- ---------------------------------------------------------------------------

namespace Node

/-- A unit whose calls go to its own methods, all with different signatures. -/
structure IsDistinct (key : String) (members : List Node) (root : Node) : Prop where
  unit : IsUnitOf key members root
  only : ∀ n ∈ members, n.CallsOnly key (members.filterMap header?)
  distinct : (members.filterMap signature?).Nodup

variable {key : String} {members : List Node} {root : Node}

theorem isBlock_numbered {start : String} (h : '(' ∉ start.toList) (i : Nat) :
    Signature.isBlock ⟨start ++ toString (i : Int)⟩ = true := by
  simpa [Signature.isBlock, h] using Signature.not_mem_toString i

theorem isBlock_owner {m : Option Signature × Node} (hm : m ∈ attributed i j ns) (hs : m.1 = some s) :
    m.2.signature? = some s ∨ s.isBlock = true := by
  refine (owner_cases hm hs).imp id ?_
  rintro ⟨k, rfl | rfl⟩
  · exact isBlock_numbered (by decide) k
  · exact isBlock_numbered (by decide) k

namespace IsDistinct

open CallGraph

variable (h : IsDistinct key members root)

include h

theorem map_ofMethod_declared :
    (Declared.ofUnit root).methods.map .ofMethod = members.filterMap signature? := by
  rw [(Declared.ofUnit_eq h.unit).1, map_ofMethod_headers]

theorem matched : (ofUnit root).Matched := by
  intro u v
  have hcount := (isLocal_ofUnit h.unit).count_callers u v
  rw [← List.count_pos_iff, hcount]
  by_cases hv : v ∈ (ofUnit root).callees u <;> simp [Calls, hv]

theorem exists_called (hs : (ofUnit root).isStart s = false) :
    ∃ m ∈ members.filterMap header?, m.isConstructor = false ∧ .ofMethod m = s := by
  obtain ⟨u, hu⟩ := List.exists_mem_of_ne_nil _ (List.isEmpty_eq_false_iff.mp hs)
  have hcallee := (h.matched u s).mp hu
  obtain ⟨m, hm, -, hcall⟩ := ((isLocal_ofUnit h.unit).mem_callees_iff u s).mp hcallee
  exact h.only m.2 (mem_of_mem_attributed hm) s hcall

theorem mem_ids_cases (hs : s ∈ (ofUnit root).ids) :
    s ∈ members.filterMap signature? ∨ s.isBlock = true := by
  obtain ⟨m, hm, hcall | ⟨howner, -⟩⟩ := ((isLocal_ofUnit h.unit).mem_ids_iff s).mp hs
  · obtain ⟨header, hheader, -, rfl⟩ := h.only m.2 (mem_of_mem_attributed hm) s hcall
    rw [← map_ofMethod_headers]
    exact .inl (List.mem_map_of_mem hheader)
  · refine (isBlock_owner hm howner).imp (fun hs => ?_) id
    exact List.mem_filterMap.mpr ⟨m.2, mem_of_mem_attributed hm, hs⟩

end IsDistinct

end Node

-- ---------------------------------------------------------------------------
-- The comparator of the working list
-- ---------------------------------------------------------------------------

namespace CallGraph

open Node

variable {p : Preferences} {key : String} {members : List Node} {root : Node}
  {g : CallGraph Signature} {before : Signature → Signature → Prop}

/-- What the working list goes by in front of places in the source. -/
def startTables (root : Node) (g : CallGraph Signature) : List RankTable :=
  [.initializers root, .constructors root, .roots g g.ids, .access root, .fanOut g g.ids]

def startVerdict (root : Node) (g : CallGraph Signature) : Signature → Signature → Int :=
  Comparator.firstVerdict ((startTables root g).map .ranks)

theorem startVerdict_eq_zero :
    startVerdict root g a b = 0 ↔ ∀ t ∈ startTables root g, t.compare a b = 0 := by
  rw [startVerdict, Comparator.firstVerdict_eq_zero, List.forall_mem_map]
  rfl

theorem weak_startVerdict : Weak (startVerdict root g) := by
  refine Comparator.weak_firstVerdict fun c hc => ?_
  obtain ⟨t, ht, rfl⟩ := List.mem_map.mp hc
  suffices hdefined : t.Defined from hdefined.weak
  simp only [startTables, List.mem_cons, List.not_mem_nil, or_false] at ht
  rcases ht with rfl | rfl | rfl | rfl | rfl
  · exact RankTable.defined_initializers root
  · exact RankTable.defined_constructors root
  · exact RankTable.defined_roots g g.ids
  · exact RankTable.defined_access root
  · exact RankTable.defined_fanOut g g.ids

theorem weak_sourcePosition : Weak (RankTable.sourcePosition root).compare :=
  (RankTable.defined_sourcePosition root).weak

theorem compare_working (hp : p.startpoints = .heuristic) (ha : a ∈ g.ids) (hb : b ∈ g.ids) :
    (g.workingComparator p root).compare a b =
      thenBy (startVerdict root g) (RankTable.sourcePosition root).compare a b := by
  have hlayers : g.workingComparator p root =
      .stack g.ids ((startTables root g).map .ranks ++ [.ranks (.sourcePosition root)]) := by
    simp [workingComparator, hp, startTables]
  have hlast : Comparator.firstVerdict [.ranks (.sourcePosition root)] a b =
      (RankTable.sourcePosition root).compare a b := by
    rw [Comparator.firstVerdict_cons, thenBy]
    split
    · rename_i hzero
      exact hzero.symm
    · rfl
  have hknows : (g.ids.contains a && g.ids.contains b) = true := by simp [ha, hb]
  rw [hlayers, Comparator.compare, if_pos hknows, Comparator.firstVerdict_append, thenBy, hlast]
  rfl

theorem weak_working :
    Weak (thenBy (startVerdict root g) (RankTable.sourcePosition root).compare) :=
  weak_startVerdict.thenBy weak_sourcePosition

theorem workingList_pairwise (hp : p.startpoints = .heuristic) (hb : g.ids.Pairwise before) :
    (g.workingList p root).Pairwise fun a b =>
      thenBy (startVerdict root g) (RankTable.sourcePosition root).compare a b < 0 ∨
        thenBy (startVerdict root g) (RankTable.sourcePosition root).compare a b = 0 ∧
          before a b := by
  let verdict := thenBy (startVerdict root g) (RankTable.sourcePosition root).compare
  have hweak : Weak verdict := weak_working
  have hconsistent : Sorting.Consistent
      (fun a b => decide ((g.workingComparator p root).compare a b < 0)) g.ids := by
    refine (hweak.consistent g.ids).congr fun a ha b hb => ?_
    rw [compare_working hp ha hb]
  refine (Sorting.sort_stable before hconsistent hb).imp_of_mem fun {a b} ha hb hab => ?_
  have ha := mem_workingList.mp ha
  have hb := mem_workingList.mp hb
  have hflip := hweak.flip b a
  rcases hab with hlt | ⟨hle, hbefore⟩
  · have hlt := of_decide_eq_true hlt
    rw [compare_working hp ha hb] at hlt
    exact .inl hlt
  · have hle := of_decide_eq_false hle
    rw [compare_working hp hb ha] at hle
    have hle : ¬verdict b a < 0 := hle
    rcases lt_or_ge (verdict a b) 0 with hlt | hge
    · exact .inl hlt
    · have hzero : verdict a b = 0 := by omega
      exact .inr ⟨hzero, hbefore⟩

-- ---------------------------------------------------------------------------
-- Nodes without callers
-- ---------------------------------------------------------------------------

theorem get?_initializers (root : Node) (m : Method) :
    (RankTable.initializers root).get? (.ofMethod m) = none := by
  have hnodup : (((List.range (Declared.ofUnit root).initializers).map fun (i : Nat) =>
      (Signature.ofInitializer i, Rank.finite i)).map Prod.fst).Nodup := by
    rw [List.map_map]
    exact List.nodup_range.map fun i j hij => Int.ofNat_inj.mp (Signature.ofInitializer_inj hij)
  rw [← Option.not_isSome_iff_eq_none, RankTable.initializers, RankTable.isSome_get?_ofList hnodup,
    List.map_map, List.mem_map]
  rintro ⟨i, -, heq⟩
  exact Signature.ofInitializer_ne_ofMethod i m heq

section Distinct

variable (h : IsDistinct key members root)

include h

theorem get?_constructors :
    ((RankTable.constructors root).get? s).isSome = true ↔
      ∃ m ∈ members.filterMap header?, m.isConstructor = true ∧ .ofMethod m = s := by
  have hnodup : (((Declared.ofUnit root).methods.filter (·.isConstructor)).map
      Signature.ofMethod).Nodup := by
    refine List.Nodup.sublist (List.filter_sublist.map _) ?_
    rw [h.map_ofMethod_declared]
    exact h.distinct
  rw [RankTable.constructors, RankTable.isSome_get?_ofMethods hnodup, (Declared.ofUnit_eq h.unit).1]
  simp [and_assoc]

theorem method_eq {m m' : Method} (hm : m ∈ members.filterMap header?)
    (hm' : m' ∈ members.filterMap header?) (heq : Signature.ofMethod m = .ofMethod m') : m = m' := by
  have hnodup := h.distinct
  rw [← map_ofMethod_headers] at hnodup
  exact List.inj_on_of_nodup_map hnodup hm hm' heq

theorem startVerdict_neg (ha : a ∈ (ofUnit root).ids) (hb : b ∈ (ofUnit root).ids)
    (hstart : (ofUnit root).isStart a = true) (hcalled : (ofUnit root).isStart b = false) :
    startVerdict root (ofUnit root) a b < 0 := by
  have hnodup := (isLocal_ofUnit h.unit).nodup_ids
  obtain ⟨m, hm, hplain, rfl⟩ := h.exists_called hcalled
  have hinitializers : (RankTable.initializers root).compare a (.ofMethod m) ≤ 0 :=
    RankTable.compare_le_of_unknown (get?_initializers root m) (RankTable.unknownFirst_ofList _ _)
  have hconstructors : (RankTable.constructors root).compare a (.ofMethod m) ≤ 0 := by
    refine RankTable.compare_le_of_unknown ?_ (RankTable.unknownFirst_ofList _ _)
    rw [← Option.not_isSome_iff_eq_none, get?_constructors h]
    rintro ⟨m', hm', hconstructor, heq⟩
    rw [method_eq h hm' hm heq, hplain] at hconstructor
    cases hconstructor
  have hroots : (RankTable.roots (ofUnit root) (ofUnit root).ids).compare a (.ofMethod m) < 0 := by
    unfold isStart at hstart hcalled
    rw [RankTable.compare, RankTable.roots, RankTable.get?_ofNodes hnodup ha,
      RankTable.get?_ofNodes hnodup hb, hstart, hcalled]
    show Rank.compare (.finite (-1)) 0 < 0
    decide
  have hfirst (first : RankTable) {rest : List Comparator} (hle : first.compare a (.ofMethod m) ≤ 0)
      (hrest : Comparator.firstVerdict rest a (.ofMethod m) < 0) :
      Comparator.firstVerdict (.ranks first :: rest) a (.ofMethod m) < 0 := by
    rw [Comparator.firstVerdict_cons, thenBy_neg]
    exact (lt_or_eq_of_le hle).imp id fun hzero => ⟨hzero, hrest⟩
  refine hfirst _ hinitializers (hfirst _ hconstructors ?_)
  rw [List.map_cons, Comparator.firstVerdict_cons, thenBy_neg]
  exact .inl hroots

theorem workingList_starts (hp : p.startpoints = .heuristic) :
    (ofUnit root).workingList p root =
      ((ofUnit root).workingList p root).filter (ofUnit root).isStart ++
        ((ofUnit root).workingList p root).filter (!(ofUnit root).isStart ·) := by
  refine Sorting.eq_filter_append_filter ?_
  have hany : (ofUnit root).ids.Pairwise fun _ _ => True := List.pairwise_of_forall fun _ _ => trivial
  refine (workingList_pairwise hp hany).imp_of_mem fun {a b} ha hb hab hstart => ?_
  by_contra hcalled
  have hstarts := startVerdict_neg h (mem_workingList.mp hb) (mem_workingList.mp ha) hstart
    (by simpa using hcalled)
  have hweak : Weak (thenBy (startVerdict root (ofUnit root))
    (RankTable.sourcePosition root).compare) := weak_working
  have hflip := (hweak.flip b a).mp (thenBy_neg.mpr (.inl hstarts))
  omega

/-- The arrangement goes by the nodes without callers alone. -/
theorem arranged_eq (hp : p.startpoints = .heuristic) (hcycle : (ofUnit root).NoCycle) :
    (ofUnit root).arranged p root = (Arrangement.traverse p.placement p.strategy
      { graph := ofUnit root }
      (((ofUnit root).workingList p root).filter (ofUnit root).isStart)).ordered := by
  have hnodup := (isLocal_ofUnit h.unit).nodup_ids
  rw [arranged, workingList_starts h hp, Arrangement.traverse_starts]
  · rw [← workingList_starts h hp]
  · intro v hv
    have hv := mem_workingList.mp (List.mem_filter.mp hv).1
    obtain ⟨s, hs, hstart, hreach⟩ := exists_start hnodup hcycle h.matched hv
    exact ⟨s, List.mem_filter.mpr ⟨mem_workingList.mpr hs, hstart⟩, hreach⟩

end Distinct

end CallGraph

end CallerFirst
