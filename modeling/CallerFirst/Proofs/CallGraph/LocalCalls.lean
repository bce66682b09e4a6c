import CallerFirst.Proofs.CallGraph.Record

/-!
# The calls that a unit makes to its own methods

`Node.localCalls` lists the calls below a node that go to methods of one type, without those in
nested types and anonymous classes. `ofUnit_eq`: going over a unit records, member by member, the
declaration and the calls of each; `ofUnitWithin_eq` says the same of the calls between some methods.
-/

namespace CallerFirst

-- ---------------------------------------------------------------------------
-- Calls below a node
-- ---------------------------------------------------------------------------

namespace Node

def localCall? (key : String) (hasQualifier : Bool) (binding : Option MethodBinding) :
    Option Signature :=
  (binding.filter fun b => !hasQualifier && b.declaringType.any (·.key == key)).map .ofBinding

mutual
/-- Calls below a node to methods of the type with a key, in the order in which they stand. -/
def localCalls (key : String) : Node → List Signature
  | .unit _ _ types => localCallsAll key types
  | .type .. | .anonymousClass .. | .annotationMember .. => []
  | .method _ _ body => localCallsAll key body
  | .initializer _ _ body => localCallsAll key body
  | .field _ _ _ _ initializers => localCallsAll key initializers
  | .enumConstant _ _ arguments body => localCallsAll key arguments ++ localCallsOption key body
  | .call _ hasQualifier binding arguments =>
    (localCall? key hasQualifier binding).toList ++ localCallsAll key arguments
def localCallsAll (key : String) : List Node → List Signature
  | [] => []
  | n :: rest => n.localCalls key ++ localCallsAll key rest
def localCallsOption (key : String) : Option Node → List Signature
  | none => []
  | some n => n.localCalls key
end

theorem localCallsAll_eq (key : String) (ns : List Node) :
    localCallsAll key ns = ns.flatMap (·.localCalls key) := by
  induction ns with
  | nil => rfl
  | cons n ns ih => simp [localCallsAll, ih]

theorem localCalls_enumConstant (key : String) (place : Place) (name : String)
    (arguments : List Node) (body : Option Node) :
    (enumConstant place name arguments body).localCalls key =
      localCallsAll key (arguments ++ body.toList) := by
  rw [localCalls, localCallsAll_eq, localCallsAll_eq, List.flatMap_append]
  cases body <;> simp [localCallsOption]

/-- Code as it stands in a body: calls, and types and classes that are no part of the type with the
key. -/
inductive IsCode (key : String) : Node → Prop
  | call {name hasQualifier binding} {arguments : List Node} (h : ∀ n ∈ arguments, IsCode key n) :
      IsCode key (.call name hasQualifier binding arguments)
  | anonymousClass {binding members} : IsCode key (.anonymousClass binding members)
  | type {place header members} (h : ∀ b ∈ header.binding, b.key ≠ key) :
      IsCode key (.type place header members)

/-- A member as it stands in the body of the type with the key: a declaration whose body is code, or
another type. -/
inductive IsMemberOf (key : String) : Node → Prop
  | method {place header} {body : List Node} (h : ∀ n ∈ body, IsCode key n) :
      IsMemberOf key (.method place header body)
  | initializer {place isStatic} {body : List Node} (h : ∀ n ∈ body, IsCode key n) :
      IsMemberOf key (.initializer place isStatic body)
  | field {place typeText names modifiers} {initializers : List Node}
      (h : ∀ n ∈ initializers, IsCode key n) :
      IsMemberOf key (.field place typeText names modifiers initializers)
  | enumConstant {place name} {arguments : List Node} {body : Option Node}
      (h : ∀ n ∈ arguments, IsCode key n) (hbody : ∀ n ∈ body, IsCode key n) :
      IsMemberOf key (.enumConstant place name arguments body)
  | annotationMember {place name returnType} :
      IsMemberOf key (.annotationMember place name returnType)
  | type {place header members} (h : ∀ b ∈ header.binding, b.key ≠ key) :
      IsMemberOf key (.type place header members)

/-- A unit without types, or one whose first type is at its own level and has the key and the
members. Other types of that key have no members. -/
inductive IsUnitOf (key : String) : List Node → Node → Prop
  | empty {source package} : IsUnitOf key [] (.unit source package [])
  | typed {source package place header} {members others : List Node} {b : TypeBinding}
      (hbinding : header.binding = some b) (hkey : b.key = key) (hprimary : b.isPrimary = true)
      (hmembers : ∀ n ∈ members, IsMemberOf key n)
      (hothers : ∀ n ∈ others, ∃ place header nodes, n = .type place header nodes ∧
        (nodes = [] ∨ ∀ b ∈ header.binding, b.key ≠ key)) :
      IsUnitOf key members (.unit source package (.type place header members :: others))

def isDeclared : Node → Bool
  | method .. | initializer .. => true
  | _ => false

/-- Members with the signatures that their calls count for. The `i`-th initializer block and the
`j`-th field have signatures of their own. -/
def attributed : Nat → Nat → List Node → List (Option Signature × Node)
  | _, _, [] => []
  | i, j, n :: rest =>
    match n with
    | .method _ header _ => (some (.ofMethod header), n) :: attributed i j rest
    | .initializer .. => (some (.ofInitializer i), n) :: attributed (i + 1) j rest
    | .field .. => (some (.ofFieldInitializer j), n) :: attributed i (j + 1) rest
    | _ => (none, n) :: attributed i j rest

end Node

namespace CallGraph

open Node

-- ---------------------------------------------------------------------------
-- Steps of an extraction
-- ---------------------------------------------------------------------------

def findsOf (key : String) (m : Option Signature × Node) : List Find :=
  (if m.2.isDeclared then m.1.toList.map .declaration else []) ++
    (m.2.localCalls key).map (.call m.1)

theorem create_of_mem {g : CallGraph Signature} (h : v ∈ g.ids) : g.create v = g := by
  rw [create, if_pos (by simpa [contains] using h)]

namespace Extraction

variable {e : Extraction} {key : String} {c d : Signature} {ds : List Signature}

theorem localCall?_eq (htop : e.top.map (·.key) = some key) (hasQualifier : Bool)
    (binding : Option MethodBinding) :
    e.localCall? hasQualifier binding = Node.localCall? key hasQualifier binding := by
  obtain ⟨t, ht, rfl⟩ := Option.map_eq_some_iff.mp htop
  cases binding with
  | none => rfl
  | some b =>
    have howns : e.top.owns b = b.declaringType.any (·.key == t.key) := by
      cases hd : b.declaringType <;> simp [TopLevel.owns, hd, ht]
    simp only [localCall?, Node.localCall?, Option.filter_some, howns]
    split <;> rfl

theorem top_withCaller : e.withCaller.top = e.top := by
  unfold withCaller
  split <;> rfl

theorem top_call : (e.call d).top = e.top := by
  unfold call
  simp only
  split <;> simp [top_withCaller]

theorem top_foldl_call : (ds.foldl call e).top = e.top := by
  induction ds generalizing e with
  | nil => rfl
  | cons d ds ih => rw [List.foldl_cons, ih, top_call]

theorem visitAll_eq_foldl {v : Visitor Extraction} {ns : List Node} {f : Node → List Signature}
    (h : ∀ n ∈ ns, ∀ e : Extraction, e.top.map (·.key) = some key →
      v.visit n e = (f n).foldl call e)
    (htop : e.top.map (·.key) = some key) :
    v.visitAll ns e = (ns.flatMap f).foldl call e := by
  induction ns generalizing e with
  | nil => rfl
  | cons n ns ih =>
    show v.visitAll ns (v.visit n e) = _
    rw [h n List.mem_cons_self e htop, List.flatMap_cons, List.foldl_append]
    refine ih (fun m hm => h m (.tail _ hm)) ?_
    rw [top_foldl_call, htop]

theorem enterType_of_key_ne {header : TypeHeader} (htop : e.top.map (·.key) = some key)
    (h : ∀ b ∈ header.binding, b.key ≠ key) : e.enterType header = (false, e) := by
  obtain ⟨t, ht, rfl⟩ := Option.map_eq_some_iff.mp htop
  have hskip : e.top.enterType header = (false, e.top) := by
    cases hb : header.binding with
    | none => simp [TopLevel.enterType, hb]
    | some b => simp [TopLevel.enterType, hb, ht, h b hb]
  simp [enterType, hskip]

/-- A visitor that adds the calls which `keep` lets through, and does not go into other classes. -/
structure Adds (v : Visitor Extraction) (keep : Signature → Bool) : Prop where
  call : ∀ name hasQualifier binding arguments e,
    v.enter (.call name hasQualifier binding arguments) e =
      (true, ((e.localCall? hasQualifier binding).filter keep).toList.foldl call e)
  anonymousClass : ∀ binding members e, v.enter (.anonymousClass binding members) e = (false, e)
  type : ∀ place header members e, v.enter (.type place header members) e = e.enterType header
  unit : ∀ source package types e, v.enter (.unit source package types) e = (true, e)
  leave : v.leave = leaveMember

theorem visitor_adds : Adds visitor fun _ => true where
  call name hasQualifier binding arguments e := by
    simp only [visitor]
    cases e.localCall? hasQualifier binding <;> rfl
  anonymousClass _ _ _ := rfl
  type _ _ _ _ := rfl
  unit _ _ _ _ := rfl
  leave := rfl

theorem filteredVisitor_adds (filter : List Signature) :
    Adds (filteredVisitor filter) filter.contains where
  call name hasQualifier binding arguments e := by
    simp only [filteredVisitor]
    cases e.localCall? hasQualifier binding with
    | none => rfl
    | some s => cases hs : filter.contains s <;> simp only [hs, Option.filter_some] <;> rfl
  anonymousClass _ _ _ := rfl
  type _ _ _ _ := rfl
  unit _ _ _ _ := rfl
  leave := rfl

section Code

variable {v : Visitor Extraction} {keep : Signature → Bool} {n : Node}

theorem Adds.visit_code (hv : Adds v keep) (h : IsCode key n)
    (htop : e.top.map (·.key) = some key) :
    v.visit n e = ((n.localCalls key).filter keep).foldl Extraction.call e := by
  induction h generalizing e with
  | @call name hasQualifier binding arguments _ ih =>
    rw [Visitor.visit_eq, hv.call, hv.leave, localCall?_eq htop, localCalls, localCallsAll_eq,
      List.filter_append, List.foldl_append, List.filter_flatMap, Option.toList_filter]
    exact visitAll_eq_foldl (fun n hn e => ih n hn) (by rw [top_foldl_call, htop])
  | anonymousClass =>
    rw [Visitor.visit_eq, hv.anonymousClass, hv.leave]
    rfl
  | type h =>
    rw [Visitor.visit_eq, hv.type, enterType_of_key_ne htop h, hv.leave]
    rfl

theorem Adds.visit_body (hv : Adds v keep) {e' : Extraction} (henter : v.enter n e = (true, e'))
    (hsame : e'.top = e.top) (h : ∀ m ∈ n.children, IsCode key m)
    (htop : e.top.map (·.key) = some key) :
    v.visit n e =
      leaveMember n (((localCallsAll key n.children).filter keep).foldl Extraction.call e') := by
  rw [Visitor.visit_of_deeper henter, hv.leave, localCallsAll_eq, List.filter_flatMap,
    visitAll_eq_foldl (fun m hm e => hv.visit_code (h m hm)) (hsame ▸ htop)]

end Code

-- calls count for the declaration that is being read, for the field, or for nothing

theorem foldl_call_of_caller (hc : e.caller = some c) (hmem : c ∈ e.graph.ids) :
    ds.foldl call e =
      { e with graph := (ds.map (Find.call (some c))).foldl record e.graph } := by
  induction ds generalizing e with
  | nil => rfl
  | cons d ds ih =>
    have hcall : e.call d = { e with graph := e.graph.record (.call (some c) d) } := by
      have hcreate : (e.graph.create d).create c = e.graph.create d :=
        create_of_mem (mem_ids_create.mpr (.inl hmem))
      simp only [call, withCaller, hc, record, hcreate]
    rw [List.foldl_cons, hcall, ih (e := { e with graph := e.graph.record (.call (some c) d) }) hc]
    · rfl
    · simp [record, ids_addEdge, mem_ids_create]

theorem foldl_call_of_none (hc : e.caller = none) (hf : e.field = none) :
    ds.foldl call e = { e with graph := (ds.map (Find.call none)).foldl record e.graph } := by
  induction ds generalizing e with
  | nil => rfl
  | cons d ds ih =>
    have hcall : e.call d = { e with graph := e.graph.record (.call none d) } := by
      simp only [call, withCaller, hc, hf, record]
    rw [List.foldl_cons, hcall, ih (e := { e with graph := e.graph.record (.call none d) }) hc hf]
    rfl

theorem foldl_call_of_field {i : Nat} (hc : e.caller = none) (hf : e.field = some i) :
    { ds.foldl call e with caller := none } =
      { e with
        graph := (ds.map (Find.call (some (.ofFieldInitializer i)))).foldl record e.graph } := by
  cases ds with
  | nil => simp [hc]
  | cons d ds =>
    let made : Extraction :=
      { e with
        graph := e.graph.record (.call (some (.ofFieldInitializer i)) d)
        caller := some (.ofFieldInitializer i) }
    have hcall : e.call d = made := by
      simp only [call, withCaller, hc, hf, record, start, made]
    rw [List.foldl_cons, hcall, foldl_call_of_caller (e := made) rfl]
    · simp [made, hc]
    · simp [made, record, ids_addEdge, mem_ids_create]

structure Resting (key : String) (e : Extraction) : Prop where
  top : e.top.map (·.key) = some key
  caller : e.caller = none
  field : e.field = none

-- ---------------------------------------------------------------------------
-- Members
-- ---------------------------------------------------------------------------

theorem isCode_enumConstant {place : Place} {name : String} {arguments : List Node}
    {body : Option Node} (h : ∀ m ∈ arguments, IsCode key m) (hbody : ∀ m ∈ body, IsCode key m) :
    ∀ m ∈ (Node.enumConstant place name arguments body).children, IsCode key m := by
  intro m hm
  rcases List.mem_append.mp hm with hm | hm
  · exact h m hm
  · exact hbody m (Option.mem_toList.mp hm)

theorem visit_member {n : Node} (h : IsMemberOf key n) (hr : Resting key e) :
    ∃ m i j, visitor.visit n e =
        { e with graph := (findsOf key m).foldl record e.graph, initializers := i, fields := j } ∧
      ∀ rest, attributed e.initializers e.fields (n :: rest) = m :: attributed i j rest := by
  obtain ⟨g, top, caller, i, j, field⟩ := e
  obtain ⟨htop, rfl, rfl⟩ := hr
  cases h with
  | @method place header body h =>
    refine ⟨(some (.ofMethod header), .method place header body), i, j, ?_, fun rest => rfl⟩
    refine Eq.trans (visitor_adds.visit_body rfl rfl h htop) ?_
    rw [List.filter_true, foldl_call_of_caller rfl (mem_ids_create.mpr (.inr rfl))]
    rfl
  | @initializer place isStatic body h =>
    refine ⟨(some (.ofInitializer i), .initializer place isStatic body), i + 1, j, ?_,
      fun rest => rfl⟩
    refine Eq.trans (visitor_adds.visit_body rfl rfl h htop) ?_
    rw [List.filter_true, foldl_call_of_caller rfl (mem_ids_create.mpr (.inr rfl))]
    rfl
  | @field place typeText names modifiers initializers h =>
    refine ⟨(some (.ofFieldInitializer j), .field place typeText names modifiers initializers), i,
      j + 1, ?_, fun rest => rfl⟩
    refine Eq.trans (visitor_adds.visit_body rfl rfl h htop) ?_
    rw [List.filter_true]
    exact congrArg (fun e : Extraction => { e with field := none })
      (foldl_call_of_field (e := ⟨g, top, none, i, j + 1, some j⟩) rfl rfl)
  | @enumConstant place name arguments body h hbody =>
    refine ⟨(none, .enumConstant place name arguments body), i, j, ?_, fun rest => rfl⟩
    refine Eq.trans (visitor_adds.visit_body rfl rfl (isCode_enumConstant h hbody) htop) ?_
    rw [List.filter_true, foldl_call_of_none rfl rfl, findsOf, localCalls_enumConstant]
    rfl
  | annotationMember =>
    exact ⟨_, i, j, Visitor.visit_of_deeper rfl, fun rest => rfl⟩
  | @type place header members h =>
    refine ⟨(none, .type place header members), i, j, ?_, fun rest => rfl⟩
    exact Visitor.visit_of_skipped (enterType_of_key_ne htop h)

theorem visitAll_members {ns : List Node} (h : ∀ n ∈ ns, IsMemberOf key n) (hr : Resting key e) :
    Resting key (visitor.visitAll ns e) ∧
      (visitor.visitAll ns e).graph =
        ((attributed e.initializers e.fields ns).flatMap (findsOf key)).foldl record e.graph := by
  induction ns generalizing e with
  | nil => exact ⟨hr, rfl⟩
  | cons n ns ih =>
    obtain ⟨m, i, j, hvisit, hrest⟩ := visit_member (h n List.mem_cons_self) hr
    obtain ⟨hresting, hgraph⟩ := ih (fun m hm => h m (.tail _ hm))
      (e := { e with graph := (findsOf key m).foldl record e.graph, initializers := i, fields := j })
      ⟨hr.top, hr.caller, hr.field⟩
    show Resting key (visitor.visitAll ns (visitor.visit n e)) ∧
      (visitor.visitAll ns (visitor.visit n e)).graph = _
    rw [hvisit, hrest, List.flatMap_cons, List.foldl_append]
    exact ⟨hresting, hgraph⟩

theorem visitAll_others {v : Visitor Extraction} {keep : Signature → Bool} (hv : Adds v keep)
    {others : List Node} (h : ∀ n ∈ others, ∃ place header nodes, n = .type place header nodes ∧
      (nodes = [] ∨ ∀ b ∈ header.binding, b.key ≠ key)) (htop : e.top.map (·.key) = some key) :
    v.visitAll others e = e := by
  induction others with
  | nil => rfl
  | cons n others ih =>
    show v.visitAll others (v.visit n e) = e
    suffices hvisit : v.visit n e = e by
      rw [hvisit]
      exact ih fun m hm => h m (.tail _ hm)
    obtain ⟨place, header, nodes, rfl, hnodes⟩ := h n List.mem_cons_self
    rw [Visitor.visit_eq, hv.type, hv.leave]
    rcases hnodes with rfl | hkey
    · obtain ⟨t, ht, -⟩ := Option.map_eq_some_iff.mp htop
      have hsame : (e.enterType header).2 = e := by
        obtain ⟨g, top⟩ := e
        obtain rfl : top = some t := ht
        cases hb : header.binding <;> simp [enterType, TopLevel.enterType, hb]
      rw [hsame]
      exact ite_self _
    · rw [enterType_of_key_ne htop hkey]
      rfl

theorem Adds.walk_typed {v : Visitor Extraction} {keep : Signature → Bool} (hv : Adds v keep)
    {source package : String} {place : Place} {header : TypeHeader} {members others : List Node}
    {b : TypeBinding} (hbinding : header.binding = some b) (hprimary : b.isPrimary = true)
    (hothers : ∀ n ∈ others, ∃ place header nodes, n = .type place header nodes ∧
      (nodes = [] ∨ ∀ b ∈ header.binding, b.key ≠ key))
    (htop : (v.visitAll members { top := some b }).top.map (·.key) = some key) :
    v.walk (.unit source package (.type place header members :: others)) {} =
      v.visitAll members { top := some b } := by
  have henter : v.enter (.type place header members) {} = (true, { top := some b }) := by
    simp [hv.type, enterType, TopLevel.enterType, hbinding, hprimary]
  rw [Visitor.walk_eq_visit, Visitor.visit_of_deeper (hv.unit _ _ _ _), hv.leave]
  show v.visitAll others (v.visit (.type place header members) {}) = _
  rw [Visitor.visit_of_deeper henter, hv.leave]
  exact visitAll_others hv hothers htop

end Extraction

open Extraction

/-- The graph of a unit records its members one by one. -/
theorem ofUnit_eq {root : Node} {members : List Node} (h : IsUnitOf key members root) :
    ofUnit root = ((attributed 0 0 members).flatMap (findsOf key)).foldl record {} := by
  cases h with
  | empty => rfl
  | @typed source package place header members others b hb hkey hprimary hmembers hothers =>
    have hresting : Resting key { top := some b } := ⟨congrArg some hkey, rfl, rfl⟩
    obtain ⟨⟨htop, -, -⟩, hgraph⟩ := visitAll_members hmembers hresting
    rw [ofUnit, visitor_adds.walk_typed hb hprimary hothers htop, hgraph]

-- ---------------------------------------------------------------------------
-- Between some methods
-- ---------------------------------------------------------------------------

def findsWithin (key : String) (filter : List Signature) (n : Node) : List Find :=
  let calls := (n.localCalls key).filter filter.contains
  match n with
  | .method _ header _ =>
    if filter.contains (.ofMethod header) then
      .declaration (.ofMethod header) :: calls.map (.call (some (.ofMethod header)))
    else []
  | .enumConstant .. => calls.map (.call none)
  | _ => []

theorem Extraction.visit_member_within (filter : List Signature) {n : Node}
    (h : IsMemberOf key n) (hr : Resting key e) :
    (filteredVisitor filter).visit n e =
      { e with graph := (findsWithin key filter n).foldl record e.graph } := by
  have hv := filteredVisitor_adds filter
  obtain ⟨g, top, caller, i, j, field⟩ := e
  obtain ⟨htop, rfl, rfl⟩ := hr
  cases h with
  | @method place header body h =>
    by_cases hs : filter.contains (.ofMethod header) = true
    · have henter : (filteredVisitor filter).enter (.method place header body)
          ⟨g, top, none, i, j, none⟩ = (true, start ⟨g, top, none, i, j, none⟩ (.ofMethod header)) := by
        simp only [filteredVisitor, hs, ↓reduceIte]
      refine Eq.trans (hv.visit_body henter rfl h htop) ?_
      rw [foldl_call_of_caller rfl (mem_ids_create.mpr (.inr rfl))]
      simp only [findsWithin, hs, ↓reduceIte]
      rfl
    · have henter : (filteredVisitor filter).enter (.method place header body)
          ⟨g, top, none, i, j, none⟩ = (false, ⟨g, top, none, i, j, none⟩) := by
        simp only [filteredVisitor, hs, Bool.false_eq_true, ↓reduceIte]
      rw [Visitor.visit_of_skipped henter]
      simp only [findsWithin, hs, Bool.false_eq_true, ↓reduceIte]
      rfl
  | @enumConstant place name arguments body h hbody =>
    refine Eq.trans (hv.visit_body rfl rfl (isCode_enumConstant h hbody) htop) ?_
    rw [foldl_call_of_none rfl rfl, findsWithin, localCalls_enumConstant]
    rfl
  | initializer => exact Visitor.visit_of_skipped rfl
  | field => exact Visitor.visit_of_skipped rfl
  | annotationMember => exact Visitor.visit_of_deeper rfl
  | type h => exact Visitor.visit_of_skipped (enterType_of_key_ne htop h)

theorem Extraction.visitAll_within (filter : List Signature) {ns : List Node}
    (h : ∀ n ∈ ns, IsMemberOf key n) (hr : Resting key e) :
    (filteredVisitor filter).visitAll ns e =
      { e with graph := (ns.flatMap (findsWithin key filter)).foldl record e.graph } := by
  induction ns generalizing e with
  | nil => rfl
  | cons n ns ih =>
    show (filteredVisitor filter).visitAll ns ((filteredVisitor filter).visit n e) = _
    rw [visit_member_within filter (h n List.mem_cons_self) hr, List.flatMap_cons,
      List.foldl_append]
    exact ih (fun m hm => h m (.tail _ hm)) ⟨hr.top, hr.caller, hr.field⟩

theorem ofUnitWithin_eq (filter : List Signature) {root : Node} {members : List Node}
    (h : IsUnitOf key members root) :
    ofUnitWithin filter root = (members.flatMap (findsWithin key filter)).foldl record {} := by
  cases h with
  | empty => rfl
  | @typed source package place header members others b hb hkey hprimary hmembers hothers =>
    have hresting : Resting key { top := some b } := ⟨congrArg some hkey, rfl, rfl⟩
    have hall := visitAll_within filter hmembers hresting
    have htop := congrArg (fun e : Extraction => e.top.map (·.key)) hall
    rw [ofUnitWithin, (filteredVisitor_adds filter).walk_typed hb hprimary hothers
      (htop.trans hresting.top), hall]

end CallGraph

end CallerFirst
