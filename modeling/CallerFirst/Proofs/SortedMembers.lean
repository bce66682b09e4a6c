import CallerFirst.Proofs.CallGraph.Moved
import CallerFirst.Proofs.StepdownRule

/-!
# Members in the order of their keys

Sorting moves members by what their order sees of them, and by places only where that is the same. So
the members that it gives count as moved for the call graph (`moved_placed`), and members that stand
in the order of their keys stay (`sort_eq_tag`).
-/

namespace CallerFirst

namespace Seen

def mayMove (s : Seen) : Bool :=
  s.category != some .enumConstants

def sortKey (ordered : List Signature) (s : Seen) : ℕ ×ₗ ℕ :=
  toLex (if s.keepsOrder then 0 else if s.category = some .constructors then 1 else 2,
    (s.signature?.map ordered.idxOf).getD 0)

end Seen

namespace Node

@[simp] theorem mayMove_seen (key : String) (n : Node) : (n.seen key).mayMove = n.mayMove := by
  cases n with
  | method place header body => cases hc : header.isConstructor <;>
      simp [seen, Seen.mayMove, category?, hc, mayMove]
  | initializer place isStatic body => cases isStatic <;> rfl
  | _ => rfl

end Node

namespace MemberOrder

open Node

variable {o : MemberOrder} {ordered : List Signature} {ms members : List Node} {m n : Node}
  {key : String}

theorem sortKey_eq (key : String) (ordered : List Signature) (n : Node) :
    sortKey ordered n = toLex ((ofLex ((n.seen key).sortKey ordered)).1,
      toLex ((ofLex ((n.seen key).sortKey ordered)).2, n.place.index)) := by
  simp only [sortKey, Seen.sortKey, keepsOrder_seen, signature?_seen]
  rfl

theorem seen_sortKey_le (h : sortKey ordered m ≤ sortKey ordered n) :
    (m.seen key).sortKey ordered ≤ (n.seen key).sortKey ordered := by
  rw [sortKey_eq key, sortKey_eq key, Prod.Lex.toLex_le_toLex, Prod.Lex.toLex_le_toLex] at h
  rw [Prod.Lex.le_iff]
  exact h.imp id fun ⟨hgroup, hplace⟩ => ⟨hgroup, hplace.elim le_of_lt fun hsame => hsame.1.le⟩

theorem sortKey_lt_of_le (h : (m.seen key).sortKey ordered ≤ (n.seen key).sortKey ordered)
    (hindex : m.place.index < n.place.index) : sortKey ordered m < sortKey ordered n := by
  rw [sortKey_eq key, sortKey_eq key, sortKey_lt]
  rw [Prod.Lex.le_iff] at h
  exact h.imp id fun ⟨hgroup, hplace⟩ =>
    ⟨hgroup, (lt_or_eq_of_le hplace).imp id fun hsame => ⟨hsame, hindex⟩⟩

theorem map_snd_tag (ms : List Node) : (tag ms).map Prod.snd = ms := by
  refine List.ext_getElem? fun i => ?_
  simp [tag, Function.comp_def]

theorem sort_eq_tag (h : GoesBy o ordered ms)
    (hsorted : ms.Pairwise fun m n => sortKey ordered m < sortKey ordered n) :
    o.sort ms = tag ms := by
  have htag : (tag ms).Pairwise fun x y => sortKey ordered x.2 < sortKey ordered y.2 := by
    rw [← List.pairwise_map (f := Prod.snd) (R := fun m n => sortKey ordered m < sortKey ordered n),
      map_snd_tag]
    exact hsorted
  have hkeys : ((tag ms).map fun x => sortKey ordered x.2).Nodup :=
    List.pairwise_map.mpr (htag.imp ne_of_lt)
  have hperm : (o.sort ms).Perm (tag ms) := sort_perm h.all
  refine List.Perm.eq_of_pairwise (fun x y hx hy hxy hyx => ?_) h.sort_key_le
    (htag.imp le_of_lt) hperm
  exact List.inj_on_of_nodup_map hkeys (hperm.mem_iff.mp hx) hy (le_antisymm hxy hyx)

-- ---------------------------------------------------------------------------
-- The body behind a sort
-- ---------------------------------------------------------------------------

/-- The members of a body in order: constants, then all that may move. -/
def sortBody (o : MemberOrder) (members : List Node) : List Node :=
  members.filter (!·.mayMove) ++ (o.sort (members.filter (·.mayMove))).map Prod.snd

theorem sort_snd_perm (hall : o.methodsOnly = false) (ms : List Node) :
    ((o.sort ms).map Prod.snd).Perm ms := by
  have hsort : ((o.sort ms).map Prod.snd).Perm ((tag ms).map Prod.snd) := (sort_perm hall).map _
  rwa [map_snd_tag] at hsort

theorem sortBody_perm (hall : o.methodsOnly = false) (members : List Node) :
    (o.sortBody members).Perm members := by
  refine ((sort_snd_perm hall _).append_left _).trans (List.perm_append_comm.trans ?_)
  exact List.filter_append_perm _ _

theorem filter_mayMove_sortBody (hall : o.methodsOnly = false) (members : List Node) :
    (o.sortBody members).filter (·.mayMove) =
      (o.sort (members.filter (·.mayMove))).map Prod.snd := by
  have hmove : ((o.sort (members.filter (·.mayMove))).map Prod.snd).filter (·.mayMove) =
      (o.sort (members.filter (·.mayMove))).map Prod.snd := by
    refine List.filter_eq_self.mpr fun n hn => ?_
    exact (List.mem_filter.mp ((sort_snd_perm hall _).mem_iff.mp hn)).2
  rw [sortBody, List.filter_append, hmove, List.filter_filter]
  simp

theorem GoesBy.filter_keepsOrder (h : GoesBy o ordered ms)
    (hindices : ms.Pairwise fun m n => m.place.index < n.place.index) :
    ((o.sort ms).map Prod.snd).filter (·.keepsOrder) = ms.filter (·.keepsOrder) := by
  have hperm := (sort_snd_perm h.all ms).filter (·.keepsOrder)
  have hsorted : (((o.sort ms).map Prod.snd).filter (·.keepsOrder)).Pairwise fun m n =>
      m.place.index ≤ n.place.index := by
    refine List.pairwise_filter.mpr (List.pairwise_map.mpr (h.sort_key_le.imp ?_))
    intro x y hxy hx hy
    rw [sortKey, sortKey, if_pos hx, if_pos hy, signature?_of_keepsOrder hx,
      signature?_of_keepsOrder hy, ← not_lt, sortKey_lt] at hxy
    simpa using hxy
  have hplaces : (ms.filter (·.keepsOrder)).Pairwise fun m n => m.place.index < n.place.index :=
    hindices.sublist List.filter_sublist
  have hnodup : ((ms.filter (·.keepsOrder)).map fun m => m.place.index).Nodup :=
    List.pairwise_map.mpr (hplaces.imp ne_of_lt)
  refine List.Perm.eq_of_pairwise (fun m n hm hn hmn hnm => ?_) hsorted (hplaces.imp le_of_lt) hperm
  exact List.inj_on_of_nodup_map hnodup (hperm.mem_iff.mp hm) hn (le_antisymm hmn hnm)

theorem moved_sortBody (h : GoesBy o ordered (members.filter (·.mayMove))) (hbody : InBody members)
    (hdistinct : (members.filterMap signature?).Nodup) (key : String) :
    Seen.Moved (members.map (seen key)) ((o.sortBody members).map (seen key)) := by
  have hmove (n : Node) : n.mayMove = (n.category? != some .enumConstants) :=
    (mayMove_seen key n).symm
  have hconstants : members = members.filter (!·.mayMove) ++ members.filter (·.mayMove) := by
    have hsplit := Sorting.eq_filter_append_filter (q := (!·.mayMove)) (hbody.constants.imp ?_)
    · simpa using hsplit
    · intro m n hmn
      simpa [hmove] using hmn
  have hkept : (o.sortBody members).filter (·.keepsOrder) = members.filter (·.keepsOrder) := by
    have hsorted := h.filter_keepsOrder (hbody.indices.sublist List.filter_sublist)
    rw [sortBody, List.filter_append, hsorted, ← List.filter_append, ← hconstants]
  have hseen : Seen.keepsOrder ∘ seen key = keepsOrder := funext (keepsOrder_seen key)
  refine ⟨(sortBody_perm h.all members).map _, ?_, ?_⟩
  · rw [List.filter_map, List.filter_map, hseen, hkept]
  · rw [List.filterMap_map]
    have hsignature : Seen.signature? ∘ seen key = signature? := funext (signature?_seen key)
    rwa [hsignature]

end MemberOrder

end CallerFirst
