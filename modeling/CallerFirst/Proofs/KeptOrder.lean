import CallerFirst.Proofs.InitialOrder

/-!
# Ranks that change the order of initialization

Every table of ranks that splits categories of one body has a source whose fields, initializer blocks
and types fall out of order, so not splitting is what it takes for bodies that are sorted as one run
(`keepsInitialOrder_iff`). In bodies that are merged it is not enough if ranks are level.
-/

namespace CallerFirst

-- ---------------------------------------------------------------------------
-- Ranks that split something
-- ---------------------------------------------------------------------------

namespace MemberOrder

variable {o : MemberOrder} {m n : Node}

def placing (n : Node) : Int × Option Category :=
  (n.place.index, n.category?)

/-- Comparison of members where nothing tells methods apart. -/
def byRank (r : CategoryRanks) (a b : Int × Option Category) : Int :=
  if a.2.any (!·.isMovable) && b.2.any (!·.isMovable) then a.1 - b.1
  else if (a.2.map r.get).getD 0 ≠ (b.2.map r.get).getD 0 then
    (a.2.map r.get).getD 0 - (b.2.map r.get).getD 0
  else a.1 - b.1

theorem compareAll_eq_byRank (hnull : ∀ a b, o.comparator.compare a b = 0) (m n : Node) :
    o.compareAll m n = byRank o.ranks (placing m) (placing n) := by
  have hkeeps (k : Node) : k.category?.any (!·.isMovable) = k.keepsOrder := by
    cases hk : k.category? with
    | some c => simp [Node.keepsOrder_of_category hk]
    | none =>
      cases k with
      | unit | anonymousClass | call => rfl
      | _ => cases hk
  simp only [compareAll, byRank, placing, hkeeps, rank, hnull, ite_self, ↓reduceIte, sourceOrder]
  split
  · rfl
  · by_cases hrank : (m.category?.map o.ranks.get).getD 0 = (n.category?.map o.ranks.get).getD 0
    · simp only [hrank, ne_eq, not_true_eq_false, ↓reduceIte]
      split <;> rfl
    · simp only [ne_eq, hrank, not_false_eq_true, ↓reduceIte]

def initialPlaces (members : List (Int × Option Category)) : List Int :=
  (members.filter (·.2.any (·.isInitial))).map (·.1)

theorem map_placing_tag (ms : List Node) : ms.map placing = (tag ms).map fun x => placing x.2 := by
  refine List.ext_getElem? fun i => ?_
  simp [tag, Function.comp_def]

theorem map_placing_sort (hall : o.methodsOnly = false)
    (hnull : ∀ a b, o.comparator.compare a b = 0) (ms : List Node) :
    (o.sort ms).map (fun x => placing x.2) =
      Sorting.sort (fun a b => byRank o.ranks a b < 0) (ms.map placing) := by
  rw [map_placing_tag, Sorting.sort_map]
  simp [sort, sortTagged, Sorting.sortBy, compare, hall, compareAll_eq_byRank hnull]

theorem KeepsInitialOrder.initialPlaces_eq (hall : o.methodsOnly = false)
    (hnull : ∀ a b, o.comparator.compare a b = 0) {ms : List Node}
    (hindex : ∀ x ∈ tag ms, x.2.place.index = x.1) (h : o.KeepsInitialOrder ms) :
    initialPlaces (Sorting.sort (fun a b => byRank o.ranks a b < 0) (ms.map placing)) =
      initialPlaces (ms.map placing) := by
  have hplaces {l : List (Nat × Node)} (hl : ∀ x ∈ l, x ∈ tag ms) :
      initialPlaces (l.map fun x => placing x.2) = (initialNumbers l).map Int.ofNat := by
    simp only [initialPlaces, initialNumbers, List.filter_map, List.map_map, Function.comp_def,
      placing, Node.isInitial]
    refine List.map_congr_left fun x hx => ?_
    exact hindex x (hl x (List.mem_filter.mp hx).1)
  have hsort : ∀ x ∈ o.sort ms, x ∈ tag ms := fun x => (sort_perm hall).mem_iff.mp
  rw [← map_placing_sort hall hnull, hplaces hsort, h, map_placing_tag,
    hplaces fun _ => id]

/-- Categories of a body that falls out of order if the ranks split its categories. -/
def splitBody (k x z : Category) : List Category :=
  if z = .enumConstants then [z, k, x, x, x, x, x] else [k, x, z, x]

theorem splitBody_subset (k x z : Category) : splitBody k x z ⊆ [k, x, z] := by
  unfold splitBody
  split <;> simp

def placed (cs : List Category) : List (Int × Option Category) :=
  cs.mapIdx fun i c => (i, some c)

section

variable {r : CategoryRanks} {c d : Category} (i j : Int)

theorem byRank_level (h : r.get c = r.get d) : byRank r (i, some c) (j, some d) < 0 ↔ i < j := by
  simp only [byRank, h, Option.map_some, Option.getD_some, ne_eq, not_true_eq_false, ↓reduceIte]
  split <;> omega

theorem byRank_neg (h : r.get c < r.get d) (hm : c.isMovable = true ∨ d.isMovable = true) :
    byRank r (i, some c) (j, some d) < 0 ↔ True := by
  have hne : r.get c ≠ r.get d := by omega
  rcases hm with hm | hm <;> simp [byRank, hm, hne] <;> omega

theorem byRank_pos (h : r.get c < r.get d) (hm : c.isMovable = true ∨ d.isMovable = true) :
    byRank r (i, some d) (j, some c) < 0 ↔ False := by
  have hne : r.get d ≠ r.get c := by omega
  rcases hm with hm | hm <;> simp [byRank, hm, hne] <;> omega

theorem byRank_kept (hc : c.isMovable = false) (hd : d.isMovable = false) :
    byRank r (i, some c) (j, some d) < 0 ↔ i < j := by
  simp only [byRank, hc, hd, Option.any_some, Bool.not_false, Bool.and_self, ↓reduceIte]
  omega

end

theorem initialPlaces_sort_splitBody {r : CategoryRanks} (h : r.Splits k x z) :
    initialPlaces (Sorting.sort (fun a b => byRank r a b < 0) (placed (splitBody k x z))) ≠
      initialPlaces (placed (splitBody k x z)) := by
  obtain ⟨hk, hx, hlow, hz⟩ := h
  have hki : k.isInitial = false := by
    cases k <;> first | rfl | cases hk
  have hxm := Category.isMovable_of_isInitial hx
  have hxk := fun i j => byRank_neg i j hlow (.inr hk)
  rcases hz with ⟨hz, hhigh⟩ | ⟨rfl, hhigh⟩
  · have hzm := Category.isMovable_of_isInitial hz
    have hne : z ≠ .enumConstants := by
      rintro rfl
      cases hz
    have hxx := fun i j => byRank_kept (r := r) i j hxm hxm
    have hzx := fun i j => byRank_kept (r := r) i j hzm hxm
    have hzk : ∀ i j : Int, j < i → ¬byRank r (i, some z) (j, some k) < 0 := by
      intro i j hij
      rcases Int.lt_or_eq_of_le hhigh with hhigh | heq
      · simp [byRank_pos i j hhigh (.inl hk)]
      · rw [byRank_level i j heq.symm]
        omega
    have hsort : Sorting.sort (fun a b => byRank r a b < 0) (placed [k, x, z, x]) =
        [(1, some x), (3, some x), (0, some k), (2, some z)] := by
      rw [Sorting.sort_of_short _ (by simp [placed])]
      simp [placed, Sorting.leadingRun, Sorting.runFrom, Sorting.insert, Sorting.bisect, hxk, hxx,
        hzx, hzk]
    rw [splitBody, if_neg hne, hsort]
    simp [initialPlaces, placed, hki, hx, hz]
  · have hxx := fun i j => byRank_kept (r := r) i j hxm hxm
    have hxe := fun i j => byRank_kept (r := r) (d := .enumConstants) i j hxm rfl
    have hke := fun i j => byRank_neg i j hhigh (.inl hk)
    have hsort : Sorting.sort (fun a b => byRank r a b < 0)
        (placed [.enumConstants, k, x, x, x, x, x]) =
          [(2, some x), (3, some x), (4, some x), (6, some x), (1, some k), (0, some .enumConstants),
            (5, some x)] := by
      rw [Sorting.sort_of_short _ (by simp [placed])]
      simp [placed, Sorting.leadingRun, Sorting.runFrom, Sorting.insert, Sorting.bisect, hxk, hxx,
        hxe, hke]
    rw [splitBody, if_pos rfl, hsort]
    have hei : Category.enumConstants.isInitial = false := rfl
    simp [initialPlaces, placed, hki, hx, hei]

-- ---------------------------------------------------------------------------
-- Sources with given categories
-- ---------------------------------------------------------------------------

end MemberOrder

namespace Category

def inClass : Category → Bool
  | annotationMembers => false
  | _ => true

def inAnnotationType : Category → Bool
  | types | fields | annotationMembers => true
  | _ => false

def together (cs : List Category) : Bool :=
  cs.all inClass || cs.all inAnnotationType

def sample (needsValue : Bool) (i : Nat) : Category → List Char
  | enumConstants => "E;".toList
  | types => "class T".toList ++ letters i ++ "\x7b\x7d".toList
  | staticInitializers => "static\x7b\x7d".toList
  | fields => "int ".toList ++ letters i ++ (if needsValue then "=0;" else ";").toList
  | initializers => "\x7b\x7d".toList
  | constructors => "A()\x7b\x7d".toList
  | methods => "void ".toList ++ letters i ++ "()\x7b\x7d".toList
  | annotationMembers => "int ".toList ++ letters i ++ "();".toList
where
  letters (i : Nat) : List Char :=
    [Char.ofNat ('a'.toNat + i / 8), Char.ofNat ('a'.toNat + i % 8)]

def sampleUnit (cs : List Category) : List Char :=
  let ofAnnotationType := cs.contains .annotationMembers
  let word :=
    if cs.contains .enumConstants then "enum A\x7b"
    else if ofAnnotationType then "@interface A\x7b"
    else "class A\x7b"
  word.toList ++ (cs.mapIdx (sample ofAnnotationType)).flatten ++ ['\x7d']

def bodyOf (chars : List Char) : Option (List Node) := do
  let tokens ← (Java.Token.ofSource chars).toOption
  let unit ← (Java.CompilationUnit.ofTokens tokens).toOption
  let types ← (Java.typeNodes (.ofTokens chars tokens) unit).toOption
  let top ← types.head?
  top.members.toOption

theorem bodyOf_sampleUnit : ∀ k ∈ all, ∀ x ∈ all, ∀ z ∈ all,
    k.isMovable && x.isInitial && (z.isInitial || z = enumConstants) && x ≠ z &&
      together [k, x, z] →
    (bodyOf (sampleUnit (MemberOrder.splitBody k x z))).map (·.map Node.category?) =
      some ((MemberOrder.splitBody k x z).map some) := by
  decide +kernel

theorem exists_unit_of_bodyOf (h : bodyOf chars = some body) :
    ∃ unit top, Java.readUnit (String.ofList chars) = .ok unit ∧
      unit.topLevelType = .ok (some top) ∧ top.members = .ok body := by
  simp only [bodyOf, Option.bind_eq_bind, Option.bind_eq_some_iff] at h
  obtain ⟨tokens, htokens, parsed, hparsed, types, htypes, top, htop, hbody⟩ := h
  have hread : Java.readUnit (String.ofList chars) =
      .ok (.unit (String.ofList chars) parsed.package types) := by
    simp [Java.readUnit, String.toList_ofList, toOption_eq_some htokens,
      toOption_eq_some hparsed, toOption_eq_some htypes,
      Except.mapError, bind, Except.bind, pure, Except.pure]
  rcases Java.readUnit_ok hread with ⟨package, hunit⟩ | ⟨r, others, hunit⟩
  · obtain ⟨-, -, rfl⟩ := Node.unit.inj hunit
    cases htop
  · obtain ⟨-, -, rfl⟩ := Node.unit.inj hunit
    cases htop
    exact ⟨_, _, hread, rfl, toOption_eq_some hbody⟩

end Category

namespace Sorter

open MemberOrder

variable {p : Preferences} {unit : Node}

theorem compare_orderOf_nil (hp : p.priorities = []) (hc : p.isClustering = false)
    (a b : Signature) : (orderOf p unit).comparator.compare a b = 0 := by
  show (MethodComparison.ofPreferences p unit _).comparator.compare a b = 0
  rw [MethodComparison.comparator_ofPreferences hc]
  simp [CallGraph.methodStack, CallGraph.criteria, hp, Comparator.compare, Comparator.firstVerdict]

theorem map_placing_members (r : Java.ReadType text)
    (h : r.members.map Node.category? = cs.map some) : r.members.map placing = placed cs := by
  refine List.ext_getElem? fun i => ?_
  have hi := congrArg (·[i]?) h
  simp only [List.getElem?_map] at hi
  simp only [placed, List.getElem?_map, List.getElem?_mapIdx]
  cases hm : r.members[i]? with
  | none =>
    rw [hm] at hi
    have hc : cs[i]? = none := by simpa using hi.symm
    simp [hc]
  | some m =>
    rw [hm] at hi
    obtain ⟨c, hc, heq⟩ := Option.map_eq_some_iff.mp hi.symm
    simp [hc, placing, r.index_eq hm, ← heq]

theorem exists_not_keepsInitialOrder_of_sample {r : CategoryRanks} {cs : List Category}
    (hsample : (Category.bodyOf (Category.sampleUnit cs)).map (·.map Node.category?) =
      some (cs.map some))
    (hsort : initialPlaces (Sorting.sort (fun a b => byRank r a b < 0) (placed cs)) ≠
      initialPlaces (placed cs)) :
    ∃ text unit top body, Java.readUnit text = .ok unit ∧ unit.topLevelType = .ok (some top) ∧
      top.members = .ok body ∧ body.map Node.category? = cs.map some ∧
      ¬(orderOf { priorities := [], categoryRanks := r } unit).KeepsInitialOrder body := by
  obtain ⟨body, hbody, hcategories⟩ := Option.map_eq_some_iff.mp hsample
  obtain ⟨unit, top, hread, htop, hmembers⟩ := Category.exists_unit_of_bodyOf hbody
  refine ⟨_, unit, top, body, hread, htop, hmembers, hcategories, fun hkeeps => hsort ?_⟩
  obtain ⟨r, others, rfl, rfl⟩ := Java.exists_reading hread htop hmembers
  have hindex : ∀ y ∈ tag r.members, y.2.place.index = y.1 := by
    intro y hy
    obtain ⟨i, hi, rfl⟩ := List.mem_mapIdx.mp hy
    exact r.index_eq (List.getElem?_eq_getElem hi)
  have hplaces := hkeeps.initialPlaces_eq rfl (compare_orderOf_nil rfl rfl) hindex
  rwa [map_placing_members r hcategories] at hplaces

/-- Where the ranks split categories that can stand in one body, there is a source with members of
these categories only whose fields, blocks and types fall out of order. -/
theorem exists_not_keepsInitialOrder {r : CategoryRanks} (hsplits : r.Splits k x z)
    (htogether : Category.together [k, x, z] = true) :
    ∃ text unit top body, Java.readUnit text = .ok unit ∧ unit.topLevelType = .ok (some top) ∧
      top.members = .ok body ∧ body.map Node.category? = (splitBody k x z).map some ∧
      ¬(orderOf { priorities := [], categoryRanks := r } unit).KeepsInitialOrder body := by
  have hall (c : Category) : c ∈ Category.all := by cases c <;> decide
  refine exists_not_keepsInitialOrder_of_sample (Category.bodyOf_sampleUnit k (hall k) x (hall x) z
    (hall z) ?_) (initialPlaces_sort_splitBody hsplits)
  obtain ⟨hk, hx, hlow, hz⟩ := hsplits
  have hxz : x ≠ z := by
    rintro rfl
    rcases hz with ⟨-, hz⟩ | ⟨-, hz⟩ <;> omega
  have hzk : z.isInitial = true ∨ z = .enumConstants := hz.imp And.left And.left
  simp [hk, hx, hxz, hzk, htogether]

theorem of_map_category_splitBody {body : List Node}
    (h : body.map Node.category? = (splitBody k x z).map some) :
    body.length < 64 ∧ ∀ m ∈ body, ∃ c ∈ [k, x, z], m.category? = some c := by
  constructor
  · have hlength := congrArg List.length h
    rw [List.length_map, List.length_map] at hlength
    rw [hlength, splitBody]
    split <;> simp
  · intro m hm
    have hmem : m.category? ∈ (splitBody k x z).map some := h ▸ List.mem_map_of_mem hm
    obtain ⟨c, hc, heq⟩ := List.mem_map.mp hmem
    exact ⟨c, splitBody_subset k x z hc, heq.symm⟩

/-- Any table of ranks that splits nothing keeps the order of fields, initializer blocks and types in
bodies that are sorted as one run, and only such a table does. In longer bodies runs are merged; there
it does so if no category of methods has the rank of one of them either. -/
theorem keepsInitialOrder_iff (r : CategoryRanks) (cs : List Category)
    (htogether : Category.together cs = true) :
    ((∀ p text unit top body ms, p.categoryRanks = r → Java.readUnit text = .ok unit →
        unit.topLevelType = .ok (some top) → top.members = .ok body → ms.Sublist body →
        (∀ m ∈ ms, ∃ c ∈ cs, m.category? = some c) → ms.length < 64 →
        (orderOf p unit).KeepsInitialOrder ms) ↔
      ∀ k ∈ cs, ∀ x ∈ cs, ∀ z ∈ cs, ¬r.Splits k x z) ∧
    ((∀ k ∈ cs, ∀ x ∈ cs, ¬r.Levels k x ∧ ∀ z ∈ cs, ¬r.Splits k x z) →
      ∀ p text unit top body ms, p.categoryRanks = r → Java.readUnit text = .ok unit →
        unit.topLevelType = .ok (some top) → top.members = .ok body → ms.Sublist body →
        (∀ m ∈ ms, ∃ c ∈ cs, m.category? = some c) → (orderOf p unit).KeepsInitialOrder ms) := by
  have hpresent {ms : List Node} (h : ∀ m ∈ ms, ∃ c ∈ cs, m.category? = some c) {c : Category}
      (hc : Present ms c) : c ∈ cs := by
    obtain ⟨m, hm, heq⟩ := hc
    obtain ⟨d, hd, heq'⟩ := h m hm
    rwa [Option.some.inj (heq.symm.trans heq')]
  refine ⟨⟨fun h k hk x hx z hz hsplits => ?_, ?_⟩, ?_⟩
  · have htogether : Category.together [k, x, z] = true := by
      simp only [Category.together, Bool.or_eq_true, List.all_eq_true] at htogether ⊢
      refine htogether.imp (fun h => ?_) fun h => ?_ <;> simp [h k hk, h x hx, h z hz]
    obtain ⟨text, unit, top, body, hread, htop, hmembers, hcategories, hnot⟩ :=
      exists_not_keepsInitialOrder hsplits htogether
    obtain ⟨hshort, hcategories⟩ := of_map_category_splitBody hcategories
    refine hnot (h _ text unit top body body rfl hread htop hmembers (.refl _) (fun m hm => ?_) hshort)
    obtain ⟨c, hc, heq⟩ := hcategories m hm
    simp only [List.mem_cons, List.not_mem_nil, or_false] at hc
    refine ⟨c, ?_, heq⟩
    rcases hc with rfl | rfl | rfl <;> assumption
  · rintro h p text unit top body ms rfl hread htop hmembers hms hcategories hshort
    obtain ⟨reading, others, rfl, rfl⟩ := Java.exists_reading hread htop hmembers
    exact keepsInitialOrder_of_short rfl (reading.inBody.sublist hms) (fun k x z hk hx hz =>
      h k (hpresent hcategories hk) x (hpresent hcategories hx) z (hpresent hcategories hz)) hshort
  · rintro h p text unit top body ms rfl hread htop hmembers hms hcategories
    obtain ⟨reading, others, rfl, rfl⟩ := Java.exists_reading hread htop hmembers
    exact keepsInitialOrder_of_levelsNothing rfl (reading.inBody.sublist hms)
      (fun k x z hk hx hz => (h k (hpresent hcategories hk) x (hpresent hcategories hx)).2 z
        (hpresent hcategories hz))
      fun k x hk hx => (h k (hpresent hcategories hk) x (hpresent hcategories hx)).1

theorem keepsInitialOrder_iff_fields_last :
    Category.together [.fields, .methods, .types] = true ∧
      ¬∀ p text unit top body ms, p.categoryRanks = { fields := 9 } →
        Java.readUnit text = .ok unit → unit.topLevelType = .ok (some top) →
        top.members = .ok body → ms.Sublist body →
        (∀ m ∈ ms, ∃ c ∈ [Category.fields, .methods, .types], m.category? = some c) →
        ms.length < 64 → (orderOf p unit).KeepsInitialOrder ms := by
  refine ⟨rfl, fun h => ?_⟩
  refine (keepsInitialOrder_iff { fields := 9 } [.fields, .methods, .types] rfl).1.mp h .methods
    (by simp) .types (by simp) .fields (by simp) ?_
  exact ⟨rfl, rfl, by decide, .inl ⟨rfl, by decide⟩⟩

def mergedBody : List Category :=
  List.replicate 31 .methods ++ [.types, .methods, .fields] ++ List.replicate 30 .methods

/-- Where runs are merged, level ranks may change the order though nothing is split: a field at the
level of methods goes in front of a type behind them. -/
theorem exists_not_keepsInitialOrder_of_levels :
    (∀ k ∈ mergedBody, ∀ x ∈ mergedBody, ∀ z ∈ mergedBody,
      ¬CategoryRanks.Splits { types := 9, fields := 6 } k x z) ∧
    ∃ text unit top body, Java.readUnit text = .ok unit ∧ unit.topLevelType = .ok (some top) ∧
      top.members = .ok body ∧ body.map Node.category? = mergedBody.map some ∧
      ¬(orderOf { priorities := [], categoryRanks := { types := 9, fields := 6 } }
        unit).KeepsInitialOrder body := by
  constructor
  · have hmem {c : Category} (hc : c ∈ mergedBody) : c = .methods ∨ c = .types ∨ c = .fields := by
      simpa [mergedBody, or_assoc, or_comm, or_left_comm] using hc
    rintro k hk x hx z hz ⟨hmovable, hinitial, hlow, -⟩
    rcases hmem hk with rfl | rfl | rfl <;> rcases hmem hx with rfl | rfl | rfl <;>
      simp [Category.isMovable, Category.isInitial, CategoryRanks.get] at *
  · exact exists_not_keepsInitialOrder_of_sample (by decide +kernel) (by decide +kernel)

def fieldFirst : String := "class A \x7b int f; void m()\x7b\x7d class T \x7b\x7d \x7d"

theorem type_overtakes_field :
    ∃ unit top body, Java.readUnit fieldFirst = .ok unit ∧ unit.topLevelType = .ok (some top) ∧
      top.members = .ok body ∧
      ((orderOf { categoryRanks := { fields := 9 } } unit).sort body).map (·.1) = [2, 1, 0] ∧
      ¬(orderOf { categoryRanks := { fields := 9 } } unit).KeepsInitialOrder body := by
  refine (Java.exists_of_readBody? fieldFirst fun unit body =>
    ((orderOf { categoryRanks := { fields := 9 } } unit).sort body).map (·.1) = [2, 1, 0] ∧
      ¬(orderOf { categoryRanks := { fields := 9 } } unit).KeepsInitialOrder body) ?_
  decide +kernel

end Sorter

end CallerFirst
