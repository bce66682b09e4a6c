import CallerFirst.Proofs.Java.Bindings
import CallerFirst.Proofs.Java.Unit
import CallerFirst.Proofs.Signature

/-!
# The graph of a unit is that of its local calls

`ofUnit_exact`: callees, callers and nodes of the graph of a unit are read off its members one by
one. `ofUnitWithin_induced`: the graph between some methods is what is left of it between those.
-/

namespace CallerFirst

namespace Node

theorem signature?_eq (n : Node) : n.signature? = n.header?.map .ofMethod := by
  cases n <;> rfl

theorem map_ofMethod_headers (members : List Node) :
    (members.filterMap header?).map .ofMethod = members.filterMap signature? := by
  rw [List.map_filterMap]
  congr 1
  funext n
  exact (signature?_eq n).symm

theorem map_snd_attributed (i j : Nat) (ns : List Node) :
    (attributed i j ns).map Prod.snd = ns := by
  induction ns generalizing i j with
  | nil => rfl
  | cons n ns ih => cases n <;> simp [attributed, ih]

theorem mem_of_mem_attributed {m : Option Signature × Node} (hm : m ∈ attributed i j ns) :
    m.2 ∈ ns := by
  rw [← map_snd_attributed i j ns]
  exact List.mem_map_of_mem hm

theorem owner_cases {m : Option Signature × Node} {i j : Nat} {ns : List Node}
    (hm : m ∈ attributed i j ns) (hs : m.1 = some s) :
    m.2.signature? = some s ∨
      ∃ k : Nat, s = Signature.ofInitializer k ∨ s = Signature.ofFieldInitializer k := by
  induction ns generalizing i j with
  | nil => cases hm
  | cons n ns ih =>
    cases n with
    | initializer place isStatic body =>
      rcases List.mem_cons.mp hm with rfl | hm
      · cases hs
        exact .inr ⟨i, .inl rfl⟩
      · exact ih hm
    | field place typeText names modifiers initializers =>
      rcases List.mem_cons.mp hm with rfl | hm
      · cases hs
        exact .inr ⟨j, .inr rfl⟩
      · exact ih hm
    | _ =>
      rcases List.mem_cons.mp hm with rfl | hm
      · exact .inl hs
      · exact ih hm

theorem mem_attributed {n : Node} {i j : Nat} {ns : List Node} (hn : n ∈ ns)
    (hs : n.signature? = some s) : (some s, n) ∈ attributed i j ns := by
  induction ns generalizing i j with
  | nil => cases hn
  | cons n' ns ih =>
    rcases List.mem_cons.mp hn with rfl | hrest
    · cases n with
      | method => exact hs ▸ List.mem_cons_self
      | _ => cases hs
    · cases n' <;> exact .tail _ (ih hrest)

end Node

namespace CallGraph

open Node

variable {key : String} {members : List Node} {c d s : Signature}

-- ---------------------------------------------------------------------------
-- All calls
-- ---------------------------------------------------------------------------

/-- A graph whose calls are those of the members to methods of their type. -/
structure IsLocal (key : String) (members : List Node) (g : CallGraph Signature) : Prop where
  mem_callees_iff : ∀ c d, d ∈ g.callees c ↔
    ∃ m ∈ attributed 0 0 members, m.1 = some c ∧ d ∈ m.2.localCalls key
  /-- Callees stand in the order in which they are called first. -/
  callees_eq : ∀ c, g.callees c =
    (((attributed 0 0 members).filter (·.1 = some c)).flatMap (·.2.localCalls key)).eraseDups
  count_callers : ∀ u v, (g.callers v).count u = if v ∈ g.callees u then 1 else 0
  nodup_ids : g.ids.Nodup
  /-- A field has a node only if it calls something. -/
  mem_ids_iff : ∀ s, s ∈ g.ids ↔ ∃ m ∈ attributed 0 0 members,
    s ∈ m.2.localCalls key ∨ (m.1 = some s ∧ (m.2.isDeclared = true ∨ m.2.localCalls key ≠ []))

theorem filterMap_calls (owner : Option Signature) (ds : List Signature) (c : Signature) :
    (ds.map (Find.call owner)).filterMap (Find.calleeFor? c) = if owner = some c then ds else [] := by
  rw [List.filterMap_map]
  by_cases h : owner = some c <;> simp [Function.comp_def, Find.calleeFor?, h]

theorem filterMap_findsOf (key : String) (c : Signature) (m : Option Signature × Node) :
    (findsOf key m).filterMap (Find.calleeFor? c) =
      if m.1 = some c then m.2.localCalls key else [] := by
  have hdeclared : (if m.2.isDeclared then m.1.toList.map Find.declaration else []).filterMap
      (Find.calleeFor? c) = [] := by
    split <;> simp [List.filterMap_map, Function.comp_def, Find.calleeFor?]
  rw [findsOf, List.filterMap_append, hdeclared, List.nil_append, filterMap_calls]

theorem filterMap_flatMap_findsOf (key : String) (c : Signature)
    (ms : List (Option Signature × Node)) :
    (ms.flatMap (findsOf key)).filterMap (Find.calleeFor? c) =
      (ms.filter (·.1 = some c)).flatMap (·.2.localCalls key) := by
  induction ms with
  | nil => rfl
  | cons m ms ih =>
    rw [List.flatMap_cons, List.filterMap_append, filterMap_findsOf, ih]
    by_cases h : m.1 = some c <;> simp [h]

theorem exists_names_findsOf (m : Option Signature × Node) :
    (∃ f ∈ findsOf key m, f.Names s) ↔
      s ∈ m.2.localCalls key ∨
        (m.1 = some s ∧ (m.2.isDeclared = true ∨ m.2.localCalls key ≠ [])) := by
  obtain ⟨owner, n⟩ := m
  constructor
  · rintro ⟨f, hf, hnames⟩
    rcases List.mem_append.mp hf with hf | hf
    · split at hf
      · obtain ⟨t, ht, rfl⟩ := List.mem_map.mp hf
        cases hnames
        exact .inr ⟨Option.mem_toList.mp ht, .inl ‹_›⟩
      · cases hf
    · obtain ⟨d, hd, rfl⟩ := List.mem_map.mp hf
      rcases hnames with rfl | howner
      · exact .inl hd
      · exact .inr ⟨howner, .inr (List.ne_nil_of_mem hd)⟩
  · rintro (hs | ⟨rfl, hdeclared | hcalls⟩)
    · exact ⟨.call owner s, List.mem_append_right _ (List.mem_map_of_mem hs), .inl rfl⟩
    · refine ⟨.declaration s, List.mem_append_left _ ?_, rfl⟩
      simp only at hdeclared
      simp [hdeclared]
    · obtain ⟨d, hd⟩ := List.exists_mem_of_ne_nil _ hcalls
      exact ⟨.call (some s) d, List.mem_append_right _ (List.mem_map_of_mem hd), .inr rfl⟩

theorem isLocal_ofUnit {root : Node} (h : IsUnitOf key members root) :
    (ofUnit root).IsLocal key members := by
  have hrecords := recorded ((attributed 0 0 members).flatMap (findsOf key))
  rw [← ofUnit_eq h] at hrecords
  have hcallees (c : Signature) := (hrecords.callees c).trans
    (congrArg List.eraseDups (filterMap_flatMap_findsOf key c _))
  refine ⟨fun c d => ?_, hcallees, hrecords.callers, hrecords.wellFormed.nodup, fun s => ?_⟩
  · simp [hcallees c, and_assoc]
  · rw [hrecords.ids s]
    constructor
    · rintro ⟨f, hf, hnames⟩
      obtain ⟨m, hm, hf⟩ := List.mem_flatMap.mp hf
      exact ⟨m, hm, (exists_names_findsOf m).mp ⟨f, hf, hnames⟩⟩
    · rintro ⟨m, hm, hs⟩
      obtain ⟨f, hf, hnames⟩ := (exists_names_findsOf m).mpr hs
      exact ⟨f, List.mem_flatMap.mpr ⟨m, hm, hf⟩, hnames⟩

/-- Units that are read have the shape over which calls are read, and the graph of any unit of that
shape is the graph of its local calls. -/
theorem ofUnit_exact (root : Node) :
    (∀ text, Java.readUnit text = .ok root → ∃ key members, IsUnitOf key members root) ∧
      ∀ key members, IsUnitOf key members root → (ofUnit root).IsLocal key members := by
  constructor
  · intro text hread
    obtain ⟨key, members, hunit, -⟩ := Java.readUnit_isUnitOf hread
    exact ⟨key, members, hunit⟩
  · intro key members hunit
    exact isLocal_ofUnit hunit

def callsEverywhere : String :=
  "enum E{P(c());int f=b()+c();{a();new T(){int y=a();};}void a(){c();b();c();}void b(){}int c(){}}"

theorem ofUnit_exact_callsEverywhere :
    ∃ root key members, Java.readUnit callsEverywhere = .ok root ∧ IsUnitOf key members root ∧
      (ofUnit root).IsLocal key members ∧
      (ofUnit root).nodes.map (fun n => (n.id.key, n.callees.map (·.key))) =
        [("c()", []), ("b()", []), ("#FIELD_INITIALIZER#_0", ["b()", "c()"]),
          ("#INITIALIZER#_0", ["a()"]), ("a()", ["c()", "b()"])] := by
  obtain ⟨root, top, body, hread, -, -, hnodes⟩ :=
    Java.exists_of_readBody? callsEverywhere (fun root _ =>
      (ofUnit root).nodes.map (fun n => (n.id.key, n.callees.map (·.key))) =
        [("c()", []), ("b()", []), ("#FIELD_INITIALIZER#_0", ["b()", "c()"]),
          ("#INITIALIZER#_0", ["a()"]), ("a()", ["c()", "b()"])])
      (by decide +kernel)
  obtain ⟨hshape, hlocal⟩ := ofUnit_exact root
  obtain ⟨key, members, hunit⟩ := hshape _ hread
  exact ⟨root, key, members, hread, hunit, hlocal key members hunit, hnodes⟩

-- ---------------------------------------------------------------------------
-- Calls between some methods
-- ---------------------------------------------------------------------------

/-- A graph that is what another has between the methods of a list. -/
structure Induced (filter : List Signature) (members : List Node) (g sub : CallGraph Signature) :
    Prop where
  nodup_ids : sub.ids.Nodup
  mem_ids_iff : ∀ s, s ∈ sub.ids ↔ s ∈ filter ∧ ∃ n ∈ members, n.signature? = some s
  callees_eq : ∀ u ∈ sub.ids, sub.callees u = (g.callees u).filter filter.contains
  count_callers : ∀ u v, (sub.callers v).count u = if v ∈ sub.callees u then 1 else 0
  mem_ids_of_calls : ∀ u v, v ∈ sub.callees u → u ∈ sub.ids ∧ v ∈ sub.ids
  /-- Nothing of blocks and fields is left. -/
  no_blocks : ∀ i : Nat, .ofInitializer i ∉ sub.ids ∧ .ofFieldInitializer i ∉ sub.ids

theorem eraseDups_filter (p : Signature → Bool) (xs : List Signature) :
    (xs.filter p).eraseDups = xs.eraseDups.filter p := by
  induction xs using List.reverseRecOn with
  | nil => rfl
  | append_singleton xs a ih =>
    rw [List.filter_append, eraseDups_concat]
    by_cases ha : p a = true
    · rw [List.filter_cons_of_pos ha, List.filter_nil, eraseDups_concat, ih]
      by_cases hmem : a ∈ xs <;> simp [hmem, ha]
    · rw [List.filter_cons_of_neg ha, List.filter_nil, List.append_nil, ih]
      by_cases hmem : a ∈ xs <;> simp [hmem, ha]

theorem flatMap_attributed (key : String) (m : Method) (i j : Nat) (ns : List Node) :
    ((attributed i j ns).filter (·.1 = some (.ofMethod m))).flatMap (·.2.localCalls key) =
      (ns.filter (·.signature? = some (.ofMethod m))).flatMap (·.localCalls key) := by
  induction ns generalizing i j with
  | nil => rfl
  | cons n ns ih =>
    cases n with
    | method place header body =>
      rw [attributed]
      by_cases h : Signature.ofMethod header = .ofMethod m <;>
        simp [signature?, h, ih]
    | initializer place isStatic body =>
      simp [attributed, signature?, Signature.ofInitializer_ne_ofMethod, ih]
    | field place typeText names modifiers initializers =>
      simp [attributed, signature?, Signature.ofFieldInitializer_ne_ofMethod, ih]
    | _ => simp [attributed, signature?, ih]

theorem filterMap_findsWithin (key : String) (filter : List Signature) (m : Method)
    (hm : .ofMethod m ∈ filter) (ns : List Node) :
    (ns.flatMap (findsWithin key filter)).filterMap (Find.calleeFor? (.ofMethod m)) =
      ((ns.filter (·.signature? = some (.ofMethod m))).flatMap (·.localCalls key)).filter
        filter.contains := by
  induction ns with
  | nil => rfl
  | cons n ns ih =>
    rw [List.flatMap_cons, List.filterMap_append, ih]
    cases n with
    | method place header body =>
      by_cases hs : Signature.ofMethod header ∈ filter
      · have hfinds : findsWithin key filter (.method place header body) =
            .declaration (.ofMethod header) :: (((method place header body).localCalls key).filter
              filter.contains).map (.call (some (.ofMethod header))) := by
          simp [findsWithin, hs]
        rw [hfinds, List.filterMap_cons_none rfl, filterMap_calls]
        by_cases h : Signature.ofMethod header = .ofMethod m <;> simp [signature?, h]
      · have h : Signature.ofMethod header ≠ .ofMethod m := fun h => hs (h ▸ hm)
        simp [findsWithin, signature?, h, hs]
    | enumConstant place name arguments body =>
      rw [findsWithin, filterMap_calls]
      simp [signature?]
    | _ => simp [findsWithin, signature?]

theorem exists_names_findsWithin (filter : List Signature) (n : Node) :
    (∃ f ∈ findsWithin key filter n, f.Names s) →
      s ∈ filter ∧ (s ∈ n.localCalls key ∨ n.signature? = some s) := by
  rintro ⟨f, hf, hnames⟩
  cases n with
  | method place header body =>
    rw [findsWithin] at hf
    split at hf
    · rename_i hs
      have hs : Signature.ofMethod header ∈ filter := List.contains_iff_mem.mp hs
      rcases List.mem_cons.mp hf with rfl | hf
      · cases hnames
        exact ⟨hs, .inr rfl⟩
      · obtain ⟨d, hd, rfl⟩ := List.mem_map.mp hf
        obtain ⟨hd, hmem⟩ := List.mem_filter.mp hd
        rcases hnames with rfl | howner
        · exact ⟨List.contains_iff_mem.mp hmem, .inl hd⟩
        · cases howner
          exact ⟨hs, .inr rfl⟩
    · cases hf
  | enumConstant place name arguments body =>
    obtain ⟨d, hd, rfl⟩ := List.mem_map.mp hf
    obtain ⟨hd, hmem⟩ := List.mem_filter.mp hd
    rcases hnames with rfl | howner
    · exact ⟨List.contains_iff_mem.mp hmem, .inl hd⟩
    · cases howner
  | _ => cases hf

theorem exists_method_of_callsOnly {n : Node}
    (h : n.CallsOnly key (members.filterMap Node.header?)) (hd : d ∈ n.localCalls key) :
    ∃ m ∈ members, m.signature? = some d := by
  obtain ⟨header, hheader, -, rfl⟩ := h d hd
  obtain ⟨m, hm, hsome⟩ := List.mem_filterMap.mp hheader
  refine ⟨m, hm, ?_⟩
  cases m with
  | method => exact congrArg (Option.map Signature.ofMethod) hsome
  | _ => cases hsome

theorem exists_header_of_signature? {n : Node} (h : n.signature? = some s) :
    ∃ place header body, n = .method place header body ∧ s = .ofMethod header := by
  cases n with
  | method place header body =>
    cases h
    exact ⟨place, header, body, rfl, rfl⟩
  | _ => cases h

theorem induced_ofUnitWithin {root : Node} (hunit : IsUnitOf key members root)
    (honly : ∀ n ∈ members, n.CallsOnly key (members.filterMap Node.header?))
    (filter : List Signature) :
    Induced filter members (ofUnit root) (ofUnitWithin filter root) := by
  have hlocal := isLocal_ofUnit hunit
  have hrecords := recorded (members.flatMap (findsWithin key filter))
  rw [← ofUnitWithin_eq filter hunit] at hrecords
  have hids (s : Signature) : s ∈ (ofUnitWithin filter root).ids ↔
      s ∈ filter ∧ ∃ n ∈ members, n.signature? = some s := by
    rw [hrecords.ids s]
    constructor
    · rintro ⟨f, hf, hnames⟩
      obtain ⟨n, hn, hf⟩ := List.mem_flatMap.mp hf
      obtain ⟨hs, hcall | hown⟩ := exists_names_findsWithin filter n ⟨f, hf, hnames⟩
      · exact ⟨hs, exists_method_of_callsOnly (honly n hn) hcall⟩
      · exact ⟨hs, n, hn, hown⟩
    · rintro ⟨hs, n, hn, hown⟩
      obtain ⟨place, header, body, rfl, rfl⟩ := exists_header_of_signature? hown
      refine ⟨.declaration (.ofMethod header), List.mem_flatMap.mpr ⟨_, hn, ?_⟩, rfl⟩
      simp [findsWithin, hs]
  have hcallees (u : Signature) (hu : u ∈ (ofUnitWithin filter root).ids) :
      (ofUnitWithin filter root).callees u = ((ofUnit root).callees u).filter filter.contains := by
    obtain ⟨hs, n, hn, hown⟩ := (hids u).mp hu
    obtain ⟨place, header, body, rfl, rfl⟩ := exists_header_of_signature? hown
    rw [hrecords.callees, filterMap_findsWithin key filter header hs, eraseDups_filter,
      hlocal.callees_eq, flatMap_attributed]
  refine ⟨hrecords.wellFormed.nodup, hids, hcallees, hrecords.callers, ?_, ?_⟩
  · intro u v hv
    obtain ⟨n, hn, rfl, hcallee⟩ := exists_node_of_calls hv
    exact ⟨List.mem_map_of_mem hn, hrecords.wellFormed.closed n hn v hcallee⟩
  · intro i
    constructor
    · intro hi
      obtain ⟨-, n, -, hown⟩ := (hids _).mp hi
      obtain ⟨place, header, body, rfl, heq⟩ := exists_header_of_signature? hown
      exact Signature.ofInitializer_ne_ofMethod i header heq
    · intro hi
      obtain ⟨-, n, -, hown⟩ := (hids _).mp hi
      obtain ⟨place, header, body, rfl, heq⟩ := exists_header_of_signature? hown
      exact Signature.ofFieldInitializer_ne_ofMethod i header heq

/-- The graph between some methods of a unit is what its graph has between those. -/
theorem ofUnitWithin_induced {root : Node} (hread : Java.readUnit text = .ok root)
    (filter : List Signature) :
    ∃ key members, IsUnitOf key members root ∧
      Induced filter members (ofUnit root) (ofUnitWithin filter root) := by
  obtain ⟨key, members, hunit, honly⟩ := Java.readUnit_isUnitOf hread
  exact ⟨key, members, hunit, induced_ofUnitWithin hunit honly filter⟩

theorem ofUnitWithin_induced_callsAround :
    ∃ root key members,
      Java.readUnit "enum E{P(c());{b();}void a(){b();c();}void b(){c();}void c(){}}" = .ok root ∧
      IsUnitOf key members root ∧
      Induced [⟨"c()"⟩, ⟨"a()"⟩, ⟨"d()"⟩] members (ofUnit root)
        (ofUnitWithin [⟨"c()"⟩, ⟨"a()"⟩, ⟨"d()"⟩] root) ∧
      (ofUnitWithin [⟨"c()"⟩, ⟨"a()"⟩, ⟨"d()"⟩] root).nodes.map
        (fun n => (n.id.key, n.callees.map (·.key))) = [("c()", []), ("a()", ["c()"])] := by
  obtain ⟨root, top, body, hread, -, -, hnodes⟩ :=
    Java.exists_of_readBody? "enum E{P(c());{b();}void a(){b();c();}void b(){c();}void c(){}}"
      (fun root _ => (ofUnitWithin [⟨"c()"⟩, ⟨"a()"⟩, ⟨"d()"⟩] root).nodes.map
        (fun n => (n.id.key, n.callees.map (·.key))) = [("c()", []), ("a()", ["c()"])])
      (by decide +kernel)
  obtain ⟨key, members, hunit, hinduced⟩ :=
    ofUnitWithin_induced hread [⟨"c()"⟩, ⟨"a()"⟩, ⟨"d()"⟩]
  exact ⟨root, key, members, hread, hunit, hinduced, hnodes⟩

end CallGraph

end CallerFirst
