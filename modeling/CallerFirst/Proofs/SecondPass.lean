import CallerFirst.Proofs.Java.Unit
import CallerFirst.Proofs.MovedStarts
import CallerFirst.Proofs.SortedMembers

/-!
# Sorting what is sorted

The second pass sees other places. `second_pass_keeps`: if the sorted text is read as the sorted
members, and start points that only places tell apart were arranged as they stood, it changes nothing.
`moved_again`: without the latter it may, though there is no cycle of calls.
-/

namespace CallerFirst

open Java

namespace CallGraph

/-- Start points that only places tell apart are arranged as they stand in the source. -/
def StartsKept (p : Preferences) (root : Node) (g : CallGraph Signature) : Prop :=
  ∀ a ∈ g.ids, ∀ b ∈ g.ids, g.isStart a = true → g.isStart b = true →
    (∀ t ∈ startTables root g, t.compare a b = 0) →
    (RankTable.sourcePosition root).compare a b < 0 →
    (g.arranged p root).idxOf a < (g.arranged p root).idxOf b

instance (p : Preferences) (root : Node) (g : CallGraph Signature) :
    Decidable (g.StartsKept p root) :=
  inferInstanceAs (Decidable (∀ a ∈ g.ids, ∀ b ∈ g.ids, _ → _ → _ → _ → _ < _))

end CallGraph

namespace Node

structure IsSortable (key : String) (members : List Node) (root : Node) : Prop
    extends IsDistinct key members root where
  inBody : MemberOrder.InBody members
  unmixed : ∀ m ∈ members, ∀ n ∈ members, m.category? = some .annotationMembers →
    n.category? ≠ some .methods

end Node

namespace Sorter

open CallGraph Node

variable {p : Preferences} {key key' : String} {members members' : List Node} {root root' n : Node}
  {o : MemberOrder} {ordered : List Signature}

/-- Calls come first, from start points that are found, without clusters and with the default order
of categories. -/
structure ByCalls (p : Preferences) : Prop where
  first : p.priorities.head? = some .invocation
  startpoints : p.startpoints = .heuristic
  clusters : p.isClustering = false
  ranks : p.categoryRanks = {}

theorem goesBy_orderOf (h : IsUnitOf key members root) (hp : ByCalls p)
    (hmember : ∀ m ∈ members, m.isMember = true)
    (hunmixed : ∀ m ∈ members, ∀ n ∈ members, m.category? = some .annotationMembers →
      n.category? ≠ some .methods) :
    MemberOrder.GoesBy (orderOf p root) ((ofUnit root).arranged p root)
      (members.filter (·.mayMove)) := by
  have hmem {m : Node} (hm : m ∈ members.filter (·.mayMove)) : m ∈ members :=
    (List.mem_filter.mp hm).1
  refine ⟨rfl, hp.ranks, fun a ha b hb => ?_, fun m hm s hs => ?_, fun m hm => hmember m (hmem hm),
    fun m hm n hn => hunmixed m (hmem hm) n (hmem hn)⟩
  · exact MethodComparison.compare_arranged hp.first hp.clusters ha hb
  · obtain ⟨place, header, body, rfl, rfl⟩ := exists_header_of_signature? hs
    cases h with
    | empty => cases hm
    | typed hbinding hkey hprimary => exact mem_ids_ofUnit hbinding hprimary (hmem hm)

theorem isConstructor_iff (h : IsDistinct key members root) (hn : n ∈ members)
    (hs : n.signature? = some s) :
    n.category? = some .constructors ↔ ((RankTable.constructors root).get? s).isSome = true := by
  obtain ⟨place, header, body, rfl, rfl⟩ := exists_header_of_signature? hs
  have hheader : header ∈ members.filterMap header? := List.mem_filterMap.mpr ⟨_, hn, rfl⟩
  rw [get?_constructors h]
  constructor
  · intro hcategory
    refine ⟨header, hheader, ?_, rfl⟩
    simpa [category?] using hcategory
  · rintro ⟨m, hm, hconstructor, heq⟩
    obtain rfl := method_eq h hm hheader heq
    simp [category?, hconstructor]

theorem signatures_pairwise (h : IsDistinct key members root)
    (hgoes : MemberOrder.GoesBy o ordered (members.filter (·.mayMove)))
    (hseen : members'.map (seen key') = (o.sortBody members).map (seen key)) :
    (members'.filterMap signature?).Pairwise fun a b =>
      ((RankTable.constructors root).get? a).isSome = ((RankTable.constructors root).get? b).isSome →
        ordered.idxOf a ≤ ordered.idxOf b := by
  have hsignatures : members'.filterMap signature? =
      ((o.sort (members.filter (·.mayMove))).map Prod.snd).filterMap signature? := by
    have hmap := congrArg (List.filterMap Seen.signature?) hseen
    have hfixed : (members.filter (!·.mayMove)).filterMap signature? = [] := by
      refine List.filterMap_eq_nil_iff.mpr fun n hn => ?_
      cases n with
      | method => simp [mayMove] at hn
      | _ => rfl
    have hcomp (key : String) : Seen.signature? ∘ seen key = signature? :=
      funext (signature?_seen key)
    rwa [List.filterMap_map, List.filterMap_map, hcomp, hcomp, MemberOrder.sortBody,
      List.filterMap_append, hfixed, List.nil_append] at hmap
  have hmem {x : Nat × Node} (hx : x ∈ o.sort (members.filter (·.mayMove))) : x.2 ∈ members :=
    (List.mem_filter.mp (MemberOrder.mem_of_mem_tag
      ((MemberOrder.sort_perm hgoes.all).mem_iff.mp hx))).1
  rw [hsignatures, List.filterMap_map, List.pairwise_filterMap]
  refine hgoes.sort_key_le.imp_of_mem fun {x y} hx hy hxy a ha b hb hkind => ?_
  have hgroup : x.2.category? = some .constructors ↔ y.2.category? = some .constructors := by
    rw [isConstructor_iff h (hmem hx) ha, isConstructor_iff h (hmem hy) hb, hkind]
  have hkeeps {n : Node} {s : Signature} (hs : n.signature? = some s) : n.keepsOrder = false := by
    obtain ⟨place, header, body, rfl, -⟩ := exists_header_of_signature? hs
    rfl
  by_contra hlt
  refine hxy.not_gt ?_
  rw [MemberOrder.sortKey, MemberOrder.sortKey, MemberOrder.sortKey_lt, hkeeps ha, hkeeps hb,
    show x.2.signature? = some a from ha, show y.2.signature? = some b from hb]
  refine .inr ⟨?_, .inl (not_le.mp hlt)⟩
  simp [hgroup]

theorem place_lt (h : IsDistinct key members root)
    (hgoes : MemberOrder.GoesBy o ordered (members.filter (·.mayMove)))
    (hseen : members'.map (seen key') = (o.sortBody members).map (seen key))
    (ha : a ∈ members'.filterMap signature?) (hb : b ∈ members'.filterMap signature?)
    (hkind : (RankTable.constructors root).compare a b = 0)
    (hab : ordered.idxOf a < ordered.idxOf b) :
    (members'.filterMap signature?).idxOf a < (members'.filterMap signature?).idxOf b := by
  have hkind := RankTable.isSome_eq_of_compare hkind
  refine Sorting.lt_of_pairwise (signatures_pairwise h hgoes hseen)
    (List.getElem?_idxOf ha) (List.getElem?_idxOf hb) ?_ ?_
  · rintro rfl
    exact hab.ne rfl
  · intro hle
    exact (hle hkind.symm).not_gt hab

section Again

variable (h : IsSortable key members root) (h' : IsUnitOf key' members' root') (hp : ByCalls p)
  (hseen : members'.map (seen key') = ((orderOf p root).sortBody members).map (seen key))

include h hp hseen

theorem moved_of_seen : Seen.Moved (members.map (seen key)) (members'.map (seen key')) := by
  rw [hseen]
  exact MemberOrder.moved_sortBody (goesBy_orderOf h.unit hp h.inBody.members h.unmixed) h.inBody
    h.distinct key

include h'

theorem goesBy_again : MemberOrder.GoesBy (orderOf p root') ((ofUnit root').arranged p root')
    (members'.filter (·.mayMove)) := by
  have hcategory {n' : Node} (hn' : n' ∈ members') : ∃ n ∈ members, n.category? = n'.category? := by
    obtain ⟨n, hn, hsame⟩ := List.mem_map.mp
      ((moved_of_seen h hp hseen).perm.mem_iff.mp (List.mem_map_of_mem hn'))
    exact ⟨n, hn, congrArg Seen.category hsame⟩
  refine goesBy_orderOf h' hp (fun m hm => ?_) fun m hm n hn => ?_
  · obtain ⟨k, hk, hkm⟩ := hcategory hm
    rw [isMember, ← hkm]
    exact h.inBody.members k hk
  · obtain ⟨k, hk, hkm⟩ := hcategory hm
    obtain ⟨l, hl, hln⟩ := hcategory hn
    rw [← hkm, ← hln]
    exact h.unmixed k hk l hl

theorem keepsPlaces_again (hstarts : (ofUnit root).StartsKept p root) : KeepsPlaces root root' := by
  intro a ha b hb hstart hstart' htied hlt
  have hmoved := moved_of_seen h hp hseen
  have htables := startVerdict_eq_zero.mp htied
  rcases tied_cases h.toIsDistinct ha hb htied with ⟨hma, hmb⟩ | ⟨hblock, hblock'⟩
  · rw [← (Node.IsDistinct.signatures_perm hmoved).mem_iff] at hma hmb
    rw [compare_sourcePosition (h.of_moved h' hmoved) hma hmb, RankTable.byPlace_neg]
    exact place_lt h.toIsDistinct (goesBy_orderOf h.unit hp h.inBody.members h.unmixed) hseen hma hmb
      (htables _ (by simp [startTables])) (hstarts a ha b hb hstart hstart' htables hlt)
  · rw [compare_sourcePosition_blocks h.toIsDistinct hblock hblock'] at hlt
    cases hlt

omit h' in
theorem sortKey_pairwise_again :
    ((members'.filter (·.mayMove)).map (seen key')).Pairwise fun s t =>
      s.sortKey ((ofUnit root).arranged p root) ≤ t.sortKey ((ofUnit root).arranged p root) := by
  have hgoes := goesBy_orderOf h.unit hp h.inBody.members h.unmixed
  have hmove : (members'.filter (·.mayMove)).map (seen key') =
      (((orderOf p root).sort (members.filter (·.mayMove))).map Prod.snd).map (seen key) := by
    have hfilter := congrArg (List.filter Seen.mayMove) hseen
    have hcomp (key : String) : Seen.mayMove ∘ seen key = mayMove := funext (mayMove_seen key)
    rwa [List.filter_map, List.filter_map, hcomp, hcomp,
      MemberOrder.filter_mayMove_sortBody hgoes.all] at hfilter
  rw [hmove]
  refine List.pairwise_map.mpr (List.pairwise_map.mpr (hgoes.sort_key_le.imp ?_))
  exact MemberOrder.seen_sortKey_le

/-- Sorted members stay where they are, in a unit that shows what the first one showed. -/
theorem sort_again (hindices : members'.Pairwise fun m n => m.place.index < n.place.index)
    (hcycle : (ofUnit root).NoCycle) (hstarts : (ofUnit root).StartsKept p root) :
    (orderOf p root').sort (members'.filter (·.mayMove)) =
      MemberOrder.tag (members'.filter (·.mayMove)) := by
  have harranged : (ofUnit root').arranged p root' = (ofUnit root).arranged p root :=
    arranged_of_moved h.toIsDistinct h' (moved_of_seen h hp hseen) hp.startpoints hcycle
      (keepsPlaces_again h h' hp hseen hstarts)
  have hgoes := goesBy_again h h' hp hseen
  rw [harranged] at hgoes
  have hkeys := List.pairwise_map.mp (sortKey_pairwise_again h hp hseen)
  have hplaces := hindices.sublist (List.filter_sublist (p := (·.mayMove)))
  refine MemberOrder.sort_eq_tag hgoes ((hkeys.and hplaces).imp ?_)
  exact fun hboth => MemberOrder.sortKey_lt_of_le hboth.1 hboth.2

end Again

-- ---------------------------------------------------------------------------
-- Units
-- ---------------------------------------------------------------------------

theorem reorderUnit_of_sorted {text package : String} {types : List Node}
    (h : IsUnitOf key members (.unit text package types))
    (hmember : ∀ m ∈ members, m.isMember = true)
    (hsorted : o.sort (members.filter (·.mayMove)) =
      MemberOrder.tag (members.filter (·.mayMove))) :
    o.reorderUnit (.unit text package types) = .ok (.ok text.toList) := by
  cases h with
  | empty => rfl
  | @typed _ _ place header _ others b hbinding hkey hprimary =>
    have htop : topLevelType (.unit text package (.type place header members :: others)) =
        .ok (some (.type place header members)) := by
      simp [topLevelType, topLevelType.firstTopLevel, hbinding, hprimary]
    have hall : (members.filter (·.mayMove)).all (·.isMember) = true :=
      List.all_eq_true.mpr fun m hm => hmember m (List.mem_filter.mp hm).1
    simp only [MemberOrder.reorderUnit, bind_eq_ok]
    refine ⟨text, rfl, _, htop, ?_⟩
    simp only [bind_eq_ok]
    refine ⟨members, rfl, ?_⟩
    rw [hsorted]
    split
    · rfl
    · rw [hall, if_neg (by decide), if_pos rfl]
      rfl

theorem sortUnit_of_sorted {text package : String} {types : List Node}
    (h : IsUnitOf key members (.unit text package types))
    (hmember : ∀ m ∈ members, m.isMember = true)
    (hsorted : (orderOf p (.unit text package types)).sort (members.filter (·.mayMove)) =
      MemberOrder.tag (members.filter (·.mayMove))) (path : Option String) :
    ∃ outcome, preferred.sortUnit p path (.unit text package types) = .ok outcome ∧
      outcome.sortedSource = text := by
  let root := unit text package types
  let outcome : Outcome :=
    { path
      source := text
      sortedSource := String.ofList text.toList
      ordering := (orderOf p root).orderedSignatures
      calls := (ofUnit root).nodes.map fun n => (n.id, n.callees)
      clusters := (preferred.comparison p root (ofUnit root)).clusters }
  refine ⟨outcome, ?_, String.ofList_toList⟩
  simp only [sortUnit, bind_eq_ok]
  exact ⟨text, rfl, _, reorderUnit_of_sorted h hmember hsorted, rfl⟩

-- ---------------------------------------------------------------------------
-- Sources
-- ---------------------------------------------------------------------------

theorem inBody_of_read (hread : readUnit text = .ok root) (h : IsUnitOf key members root) :
    MemberOrder.InBody members ∧ ∀ m ∈ members, ∀ n ∈ members,
      m.category? = some .annotationMembers → n.category? ≠ some .methods := by
  rcases readUnit_ok hread with ⟨package, rfl⟩ | ⟨r, others, rfl⟩
  · cases h
    exact ⟨⟨by simp, .nil, .nil⟩, by simp⟩
  · unfold ReadType.unit at h
    cases h
    exact ⟨r.inBody, fun m hm n hn => r.unmixed_members hm hn⟩

theorem callsOnly_of_read (hread : readUnit text = .ok root) (h : IsUnitOf key members root) :
    ∀ n ∈ members, n.CallsOnly key (members.filterMap header?) := by
  obtain ⟨key', members', h', honly⟩ := readUnit_isUnitOf hread
  intro n hn
  cases h with
  | empty => cases hn
  | typed hbinding hkey =>
    cases h' with
    | typed hbinding' hkey' =>
      obtain rfl := Option.some.inj (hbinding.symm.trans hbinding')
      rw [← hkey, hkey']
      exact honly n hn

theorem exists_unit_of_read (hread : readUnit text = .ok root) :
    ∃ package types, root = .unit text package types := by
  rcases readUnit_ok hread with ⟨package, rfl⟩ | ⟨r, others, rfl⟩
  · exact ⟨package, [], rfl⟩
  · exact ⟨r.package, _, rfl⟩

/-- A class without cycles, whose methods have different signatures, is sorted for good if its start
points were kept in order. -/
theorem second_pass_keeps (hp : ByCalls p) (hread : readUnit text = .ok root)
    (hunit : IsUnitOf key members root) (hdistinct : (members.filterMap signature?).Nodup)
    (hcycle : (ofUnit root).NoCycle) (hstarts : (ofUnit root).StartsKept p root)
    (hfirst : preferred.sortSource p path text = .ok first)
    (hreread : readUnit first.sortedSource = .ok root')
    (hunit' : IsUnitOf key' members' root')
    (hseen : members'.map (seen key') = ((orderOf p root).sortBody members).map (seen key)) :
    ∃ again, preferred.sortRepeatedly p path 2 text = .ok [first, again] ∧
      again.sortedSource = first.sortedSource := by
  obtain ⟨hbody, hunmixed⟩ := inBody_of_read hread hunit
  have hsortable : IsSortable key members root :=
    ⟨⟨hunit, callsOnly_of_read hread hunit, hdistinct⟩, hbody, hunmixed⟩
  obtain ⟨hbody', -⟩ := inBody_of_read hreread hunit'
  have hsorted := sort_again hsortable hunit' hp hseen hbody'.indices hcycle hstarts
  obtain ⟨package, types, rfl⟩ := exists_unit_of_read hreread
  obtain ⟨again, hagain, hsource⟩ := sortUnit_of_sorted hunit' hbody'.members hsorted path
  have hsecond : preferred.sortSource p path first.sortedSource = .ok again := by
    simp only [sortSource, hreread, canSort, ↓reduceIte, hagain]
    rfl
  refine ⟨again, ?_, hsource⟩
  simp only [sortRepeatedly, bind_eq_ok]
  exact ⟨first, hfirst, [again], ⟨again, hsecond, [], rfl, rfl⟩, rfl⟩

def typeKey? (root : Node) : Option String :=
  match root.topLevelType with
  | .ok (some (.type _ header _)) => header.binding.map (·.key)
  | _ => none

theorem exists_unit_of_readBody? (h : readBody? text = some (root, members)) :
    ∃ key, readUnit text = .ok root ∧ IsUnitOf key members root ∧ typeKey? root = some key := by
  obtain ⟨root, hread, h⟩ := Option.bind_eq_some_iff.mp h
  obtain ⟨top, htop, h⟩ := Option.bind_eq_some_iff.mp h
  obtain ⟨body, hbody, h⟩ := Option.bind_eq_some_iff.mp h
  cases h
  have hread := toOption_eq_some hread
  have htop := toOption_eq_some (Option.join_eq_some_iff.mp htop)
  have hbody := toOption_eq_some hbody
  obtain ⟨key, members, hunit, -⟩ := readUnit_isUnitOf hread
  refine ⟨key, hread, ?_⟩
  cases hunit with
  | empty => cases htop
  | typed hbinding hkey hprimary hmembers hothers =>
    have hfound := htop
    simp only [topLevelType, topLevelType.firstTopLevel, hbinding, Option.all_some, hprimary,
      ↓reduceIte, Except.ok.injEq, Option.some.injEq] at hfound
    subst hfound
    cases hbody
    refine ⟨.typed hbinding hkey hprimary hmembers hothers, ?_⟩
    rw [typeKey?, htop]
    simp [hbinding, hkey]

def startsInTurn : String :=
  "class A{void c(){}void b(){c();}int f=c();A(){c();}void a(){c();}}"

theorem second_pass_keeps_startsInTurn :
    ∃ root first again, readUnit startsInTurn = .ok root ∧ (ofUnit root).NoCycle ∧
      (ofUnit root).StartsKept {} root ∧ first.changed = true ∧
      preferred.sortRepeatedly {} none 2 startsInTurn = .ok [first, again] ∧
      again.sortedSource = first.sortedSource := by
  have h : ((readBody? startsInTurn).any fun found =>
      (preferred.sortSource {} none startsInTurn).toOption.any fun first =>
        (readBody? first.sortedSource).any fun found' =>
          (typeKey? found.1).any fun key => (typeKey? found'.1).any fun key' =>
            decide ((ofUnit found.1).NoCycle ∧ (ofUnit found.1).StartsKept {} found.1 ∧
              first.changed = true ∧ (found.2.filterMap signature?).Nodup ∧
              found'.2.map (seen key') =
                ((orderOf {} found.1).sortBody found.2).map (seen key))) = true := by
    decide +kernel
  obtain ⟨⟨root, members⟩, hbody, h⟩ := Option.any_eq_true _ _ |>.mp h
  obtain ⟨first, hfirst, h⟩ := Option.any_eq_true _ _ |>.mp h
  obtain ⟨⟨root', members'⟩, hbody', h⟩ := Option.any_eq_true _ _ |>.mp h
  obtain ⟨key, hkey, h⟩ := Option.any_eq_true _ _ |>.mp h
  obtain ⟨key', hkey', h⟩ := Option.any_eq_true _ _ |>.mp h
  obtain ⟨hcycle, hstarts, hchanged, hdistinct, hseen⟩ := of_decide_eq_true h
  obtain ⟨typeKey, hread, hunit, htype⟩ := exists_unit_of_readBody? hbody
  obtain ⟨typeKey', hread', hunit', htype'⟩ := exists_unit_of_readBody? hbody'
  obtain rfl := Option.some.inj (hkey.symm.trans htype)
  obtain rfl := Option.some.inj (hkey'.symm.trans htype')
  obtain ⟨again, htwice, hsame⟩ := second_pass_keeps ⟨rfl, rfl, rfl, rfl⟩ hread hunit hdistinct
    hcycle hstarts (toOption_eq_some hfirst) hread' hunit' hseen
  exact ⟨root, first, again, hread, hcycle, hstarts, hchanged, htwice, hsame⟩

/-- Two methods that nothing calls, tied in all but their places. The second goes in front of a method
that the constructor arranged, and so in front of the first. -/
def tiedStarts : String :=
  "class A{void a(){c();e();}void b(){e();d();}void c(){}void d(){}void e(){}A(){d();}}"

/-- The second pass starts from the other of the two methods, and arranges what they call anew. -/
theorem moved_again :
    ∃ root first second, readUnit tiedStarts = .ok root ∧ (CallGraph.ofUnit root).NoCycle ∧
      preferred.sortSource {} none tiedStarts = .ok first ∧
      preferred.sortSource {} none first.sortedSource = .ok second ∧
      second.sortedSource ≠ first.sortedSource := by
  have h : ((readUnit tiedStarts).toOption.any fun root =>
      (preferred.sortSource {} none tiedStarts).toOption.any fun first =>
        (preferred.sortSource {} none first.sortedSource).toOption.any fun second =>
          decide ((CallGraph.ofUnit root).NoCycle ∧ second.sortedSource ≠ first.sortedSource)) =
      true := by
    decide +kernel
  simp only [Option.any_eq_true, decide_eq_true_eq] at h
  obtain ⟨root, hread, first, hfirst, second, hsecond, hcycle, hmoved⟩ := h
  exact ⟨root, first, second, toOption_eq_some hread, hcycle, toOption_eq_some hfirst,
    toOption_eq_some hsecond, hmoved⟩

end Sorter

end CallerFirst
