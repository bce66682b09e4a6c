import CallerFirst.Java.Unit
import CallerFirst.Proofs.CallGraph.LocalCalls
import CallerFirst.Proofs.Java.Convert
import CallerFirst.Proofs.Except
import CallerFirst.Proofs.Java.Parser
import Mathlib.Logic.Relation

/-!
# What calls are bound to

Keys of nested, local and anonymous types are longer than that of the type around them, so a call
that is bound to the type of the unit is bound to one of its methods. `readUnit_isBound`: a unit that
is read has the shape over which calls are read, every binding in it to its type is one to a method
that the type declares, and methods are called by identifiers.
-/

namespace CallerFirst

namespace Node

/-- Calls below the node to the type with the key go to methods of the list. -/
def CallsOnly (key : String) (methods : List Method) (n : Node) : Prop :=
  ∀ d ∈ n.localCalls key, ∃ m ∈ methods, m.isConstructor = false ∧ Signature.ofMethod m = d

def binding? : Node → Option MethodBinding
  | .call _ _ binding _ => binding
  | _ => none

def Holds (root n : Node) : Prop :=
  Relation.ReflTransGen (fun parent child => child ∈ parent.children) root n

def AllBound (P : MethodBinding → Prop) (root : Node) : Prop :=
  ∀ n, root.Holds n → ∀ b ∈ n.binding?, P b

theorem allBound_iff {P : MethodBinding → Prop} {n : Node} :
    n.AllBound P ↔ (∀ b ∈ n.binding?, P b) ∧ ∀ child ∈ n.children, child.AllBound P := by
  constructor
  · intro h
    exact ⟨h n .refl, fun child hchild m hm => h m (.head hchild hm)⟩
  · rintro ⟨hown, hchildren⟩ m hm
    rcases Relation.ReflTransGen.cases_head hm with rfl | ⟨child, hchild, hm⟩
    · exact hown
    · exact hchildren child hchild m hm

theorem AllBound.of_children {P : MethodBinding → Prop} {n : Node} (hn : n.binding? = none)
    (h : ∀ child ∈ n.children, child.AllBound P) : n.AllBound P :=
  allBound_iff.mpr ⟨by simp [hn], h⟩

theorem AllBound.mono {P Q : MethodBinding → Prop} {n : Node} (h : n.AllBound P) (hPQ : ∀ b, P b → Q b) :
    n.AllBound Q :=
  fun m hm b hb => hPQ b (h m hm b hb)

end Node

/-- A binding to the type with the key has the name and the parameter types of a method of the list. -/
def MethodBinding.Fits (key : String) (methods : List Method) (b : MethodBinding) : Prop :=
  ∀ t ∈ b.declaringType, t.key = key →
    ∃ m ∈ methods, m.isConstructor = false ∧ m.name = b.name ∧ m.parameterTypes = b.parameterTypes

namespace Node

variable {key : String} {methods : List Method} {n : Node} {ns : List Node}

theorem callsOnly_all (h : ∀ n ∈ ns, n.CallsOnly key methods) (hd : d ∈ localCallsAll key ns) :
    ∃ m ∈ methods, m.isConstructor = false ∧ Signature.ofMethod m = d := by
  rw [localCallsAll_eq] at hd
  obtain ⟨n, hn, hd⟩ := List.mem_flatMap.mp hd
  exact h n hn d hd

theorem IsCode.callsOnly (h : IsCode key n) (hbound : n.AllBound (·.Fits key methods)) :
    n.CallsOnly key methods := by
  induction h with
  | @call name hasQualifier binding arguments _ ih =>
    obtain ⟨hown, hchildren⟩ := allBound_iff.mp hbound
    intro d hd
    rw [localCalls] at hd
    rcases List.mem_append.mp hd with hd | hd
    · obtain ⟨b, hb, rfl⟩ := Option.map_eq_some_iff.mp (Option.mem_toList.mp hd)
      obtain ⟨hb, howner⟩ := Option.filter_eq_some_iff.mp hb
      obtain ⟨t, ht, hkey⟩ := (Option.any_eq_true _ _).mp (Bool.and_eq_true_iff.mp howner).2
      obtain ⟨m, hm, hplain, hname, htypes⟩ := hown b hb t ht (by simpa using hkey)
      exact ⟨m, hm, hplain, by rw [Signature.ofMethod, Signature.ofBinding, hname, htypes]⟩
    · exact callsOnly_all (fun n hn => ih n hn (hchildren n hn)) hd
  | anonymousClass => simp [CallsOnly, localCalls]
  | type => simp [CallsOnly, localCalls]

theorem IsMemberOf.callsOnly (h : IsMemberOf key n) (hbound : n.AllBound (·.Fits key methods)) :
    n.CallsOnly key methods := by
  obtain ⟨-, hchildren⟩ := allBound_iff.mp hbound
  have body {d : Signature} (hcode : ∀ child ∈ n.children, IsCode key child)
      (hd : d ∈ localCallsAll key n.children) :
      ∃ m ∈ methods, m.isConstructor = false ∧ Signature.ofMethod m = d :=
    callsOnly_all (fun child hchild => (hcode child hchild).callsOnly (hchildren child hchild)) hd
  cases h with
  | method h => exact fun d hd => body h hd
  | initializer h => exact fun d hd => body h hd
  | field h => exact fun d hd => body h hd
  | enumConstant h hbody =>
    intro d hd
    rw [localCalls_enumConstant] at hd
    refine body (fun child hchild => ?_) hd
    rcases List.mem_append.mp hchild with hchild | hchild
    · exact h child hchild
    · exact hbody child (Option.mem_toList.mp hchild)
  | annotationMember => simp [CallsOnly, localCalls]
  | type => simp [CallsOnly, localCalls]

/-- A unit of the shape over which calls are read. Bindings to its type are those of methods among
the members, and these and the types of their parameters are called by identifiers. -/
structure IsBound (key : String) (members : List Node) (root : Node) : Prop where
  unit : IsUnitOf key members root
  bindings : root.AllBound (·.Fits key (members.filterMap header?))
  written : ∀ m ∈ members.filterMap header?, m.Written Text.IsName

theorem IsBound.only {members : List Node} {root : Node} (h : IsBound key members root) :
    ∀ n ∈ members, n.CallsOnly key (members.filterMap header?) := by
  obtain ⟨hunit, hbindings, -⟩ := h
  cases hunit with
  | empty => simp
  | typed _ _ _ hmembers =>
    obtain ⟨-, htypes⟩ := allBound_iff.mp hbindings
    obtain ⟨-, hchildren⟩ := allBound_iff.mp (htypes _ List.mem_cons_self)
    exact fun n hn => (hmembers n hn).callsOnly (hchildren n hn)

end Node

namespace Java

def TypeDeclaration.declarations : TypeDeclaration → List Declaration
  | mk _ _ _ declarations => declarations

variable {key : String} {methods : List Method} {s : Scopes}

-- ---------------------------------------------------------------------------
-- Resolutions
-- ---------------------------------------------------------------------------

def Resolution.Fits (key : String) (methods : List Method) (r : Resolution) : Prop :=
  r.declaringType.key = key → r.method ∈ methods ∧ r.method.isConstructor = false

def Resolved.Fits (key : String) (methods : List Method) (known : Resolved) : Prop :=
  ∀ entry ∈ known, ∀ r ∈ entry.2, r.Fits key methods

structure Scopes.Within (key : String) (methods : List Method) (s : Scopes) : Prop where
  owner : key.length ≤ (Convert.ownerKey s).length
  methods : ∀ scope ∈ s.types, scope.binding.key = key → scope.methods = methods

theorem Scopes.Within.length_lt (hs : s.Within key methods) (separator : String)
    (h : 0 < separator.length) (name : String) :
    key.length < (Convert.ownerKey s ++ separator ++ name).length := by
  have := hs.owner
  simp only [String.length_append]
  omega

theorem Scopes.Within.enter (hs : s.Within key methods) (binding : TypeBinding)
    (h : key.length < binding.key.length) (declarations : List Declaration) :
    Scopes.Within key methods
      { s with types := Convert.scopeOf binding declarations :: s.types } := by
  refine ⟨h.le, fun scope hscope hkey => ?_⟩
  rcases List.mem_cons.mp hscope with rfl | hscope
  · exact absurd (congrArg String.length hkey) h.ne'
  · exact hs.methods scope hscope hkey

/-- A resolution that keeps what is known in order and gives a result with a property. -/
def Resolves (key : String) (methods : List Method) (x : StateM Resolved α) (P : α → Prop) :
    Prop :=
  ∀ known : Resolved, known.Fits key methods →
    P (x.run known).1 ∧ Resolved.Fits key methods (x.run known).2

namespace Resolves

variable {P : α → Prop} {Q : β → Prop}

theorem pure (h : P a) : Resolves key methods (Pure.pure a) P :=
  fun _ hknown => ⟨h, hknown⟩

theorem bind {x : StateM Resolved β} {f : β → StateM Resolved α} (hx : Resolves key methods x Q)
    (hf : ∀ b, Q b → Resolves key methods (f b) P) : Resolves key methods (x >>= f) P := by
  intro known hknown
  obtain ⟨hQ, hnext⟩ := hx known hknown
  exact hf _ hQ _ hnext

end Resolves

theorem mem_of_bestFrom (hbest : ∀ found ∈ best, found.1 ∈ methods)
    (hcandidates : ∀ m ∈ candidates, m ∈ methods)
    (h : Overload.bestFrom arguments best candidates = some found) : found.1 ∈ methods := by
  induction candidates generalizing best with
  | nil => exact hbest found h
  | cons m candidates ih =>
    have hrest : ∀ m ∈ candidates, m ∈ methods := fun m hm => hcandidates m (.tail _ hm)
    rw [Overload.bestFrom] at h
    split at h
    · exact ih hbest hrest h
    · split at h
      · refine ih (fun found hfound => ?_) hrest h
        cases hfound
        exact hcandidates m List.mem_cons_self
      · exact ih hbest hrest h

theorem mem_of_choose (h : Overload.choose candidates arguments = some m) : m ∈ candidates := by
  obtain ⟨found, hfound, rfl⟩ := Option.map_eq_some_iff.mp h
  exact mem_of_bestFrom (by simp) (fun _ => id) hfound

namespace Scopes

theorem lookup_resolves (hs : s.Within key methods) {types : StateM Resolved (List (Option String))}
    (htypes : Resolves key methods types fun _ => True) (name : String) :
    Resolves key methods (s.lookup name types) fun found => ∀ r ∈ found, r.Fits key methods := by
  unfold lookup
  split
  · exact .pure (by simp)
  · rename_i scope hscope
    refine htypes.bind fun types _ => .pure fun r hr hkey => ?_
    obtain ⟨m, hm, rfl⟩ := Option.map_eq_some_iff.mp hr
    have hmem := mem_of_choose hm
    simp only [Scope.methodsNamed, hs.methods scope (List.mem_of_find?_eq_some hscope) hkey,
      List.mem_filter, Bool.and_eq_true, Bool.not_eq_true'] at hmem
    exact ⟨hmem.1, hmem.2.2⟩

theorem lookupOnce_known (s : Scopes) (name : String)
    (types : StateM Resolved (List (Option String))) {known : Resolved}
    (h : known.lookup site = some found) :
    (s.lookupOnce site name types).run known = (found, known) := by
  simp only [lookupOnce, StateT.run_bind, StateT.run_get, pure_bind, h]
  rfl

theorem lookupOnce_new (s : Scopes) (name : String)
    (types : StateM Resolved (List (Option String))) {known : Resolved}
    (h : known.lookup site = none) :
    (s.lookupOnce site name types).run known =
      (((s.lookup name types).run known).1,
        (site, ((s.lookup name types).run known).1) :: ((s.lookup name types).run known).2) := by
  simp only [lookupOnce, StateT.run_bind, StateT.run_get, pure_bind, h]
  rfl

theorem lookupOnce_resolves (hs : s.Within key methods)
    {types : StateM Resolved (List (Option String))}
    (htypes : Resolves key methods types fun _ => True) (site : Position) (name : String) :
    Resolves key methods (s.lookupOnce site name types)
      fun found => ∀ r ∈ found, r.Fits key methods := by
  intro known hknown
  cases hsite : known.lookup site with
  | some found =>
    rw [lookupOnce_known s name types hsite]
    obtain ⟨l₁, l₂, rfl, -⟩ := List.lookup_eq_some_iff.mp hsite
    exact ⟨hknown (site, found) (by simp), hknown⟩
  | none =>
    obtain ⟨hfound, hnext⟩ := lookup_resolves hs htypes name known hknown
    rw [lookupOnce_new s name types hsite]
    refine ⟨hfound, fun entry hentry => ?_⟩
    rcases List.mem_cons.mp hentry with rfl | hentry
    · exact hfound
    · exact hnext entry hentry

mutual
theorem infer_resolves (hs : s.Within key methods) (c : Code) :
    Resolves key methods (s.infer c) fun _ => True := by
  cases c with
  | call site qualifier member arguments =>
    rw [infer]
    split
    · exact (lookupOnce_resolves hs (inferAll_resolves hs arguments) site member).bind
        fun _ _ => .pure trivial
    · exact .pure trivial
  | binary operator left right =>
    rw [infer]
    split
    · exact .pure trivial
    · split
      · exact (infer_resolves hs left).bind fun _ _ =>
          (infer_resolves hs right).bind fun _ _ => .pure trivial
      · exact .pure trivial
  | conditional condition whenTrue whenFalse =>
    rw [infer]
    exact infer_resolves hs whenTrue
  | select target selectors =>
    cases target <;> exact .pure trivial
  | _ => exact .pure trivial

theorem inferAll_resolves (hs : s.Within key methods) (cs : List Code) :
    Resolves key methods (s.inferAll cs) fun _ => True := by
  cases cs with
  | nil => exact .pure trivial
  | cons c cs =>
    rw [inferAll]
    exact (infer_resolves hs c).bind fun _ _ =>
      (inferAll_resolves hs cs).bind fun _ _ => .pure trivial

end

end Scopes

-- ---------------------------------------------------------------------------
-- Conversions
-- ---------------------------------------------------------------------------

namespace Convert

open Node (IsCode IsMemberOf AllBound allBound_iff children)

def Keeps (key : String) (methods : List Method) (x : Convert α) (P : α → Prop) : Prop :=
  ∀ p a p', p.resolved.Fits key methods → x.run p = .ok (a, p') →
    P a ∧ p'.resolved.Fits key methods

namespace Keeps

variable {P : α → Prop} {Q : β → Prop}

theorem pure (h : P a) : Keeps key methods (Pure.pure a) P := by
  rintro p b p' hp ⟨⟩
  exact ⟨h, hp⟩

theorem bind {x : Convert β} {f : β → Convert α} (hx : Keeps key methods x Q)
    (hf : ∀ b, Q b → Keeps key methods (f b) P) : Keeps key methods (x >>= f) P := by
  intro p a p' hp h
  rw [StateT.run_bind, bind_eq_ok] at h
  obtain ⟨⟨b, next⟩, hb, h⟩ := h
  obtain ⟨hQ, hnext⟩ := hx p b next hp hb
  exact hf b hQ next a p' hnext h

theorem lift (x : Except Fault α) : Keeps key methods (liftM x : Convert α) fun a => x = .ok a := by
  intro p a p' hp h
  cases x with
  | error => cases h
  | ok b =>
    cases h
    exact ⟨rfl, hp⟩

theorem resolving {x : StateM Resolved α} (hx : Resolves key methods x P) :
    Keeps key methods (Convert.resolving x) P := by
  rintro p a p' hp ⟨⟩
  exact hx p.resolved hp

theorem nextAnonymous : Keeps key methods Convert.nextAnonymous fun _ => True := by
  rintro p a p' hp ⟨⟩
  exact ⟨trivial, hp⟩

end Keeps

variable {source : Source}

/-- Code in which bindings to the type are those of its methods. -/
def Reads (key : String) (methods : List Method) (nodes : List Node) : Prop :=
  ∀ n ∈ nodes, IsCode key n ∧ n.AllBound (·.Fits key methods)

theorem Reads.nil : Reads key methods [] := by
  simp [Reads]

theorem Reads.append (h : Reads key methods xs) (h' : Reads key methods ys) :
    Reads key methods (xs ++ ys) := by
  intro n hn
  rcases List.mem_append.mp hn with hn | hn
  · exact h n hn
  · exact h' n hn

theorem Reads.isCode (h : Reads key methods nodes) : ∀ n ∈ nodes, IsCode key n :=
  fun n hn => (h n hn).1

theorem Reads.bound (h : Reads key methods nodes) : ∀ n ∈ nodes, n.AllBound (·.Fits key methods) :=
  fun n hn => (h n hn).2

theorem bindCall_keeps (hs : s.Within key methods) (site : Position) (name : String)
    (arguments : List Code) :
    Keeps key methods (bindCall s site name arguments) fun found =>
      ∀ b ∈ found, b.Fits key methods := by
  refine .bind (.resolving (Scopes.lookupOnce_resolves hs (Scopes.inferAll_resolves hs arguments)
    site name)) fun found hfound => .pure ?_
  intro b hb
  obtain ⟨r, hr, rfl⟩ := Option.map_eq_some_iff.mp hb
  rintro t ⟨⟩ hkey
  obtain ⟨hmem, hplain⟩ := hfound r hr hkey
  exact ⟨r.method, hmem, hplain, rfl, rfl⟩

theorem Keeps.bindingIf (hs : s.Within key methods) {f : Option MethodBinding → Convert α}
    {P : α → Prop} (hf : ∀ found, (∀ b ∈ found, b.Fits key methods) → Keeps key methods (f found) P) :
    Keeps key methods
      (if isPlain = true then bindCall s site name arguments >>= f else Pure.pure none >>= f) P := by
  split
  · exact .bind (bindCall_keeps hs site name arguments) hf
  · exact .bind (.pure (by simp)) hf

theorem reads_call {binding : Option MethodBinding} (hbinding : ∀ b ∈ binding, b.Fits key methods)
    (h : Reads key methods arguments) (name : String) (hasQualifier : Bool) :
    IsCode key (.call name hasQualifier binding arguments) ∧
      AllBound (·.Fits key methods) (.call name hasQualifier binding arguments) :=
  ⟨.call h.isCode, allBound_iff.mpr ⟨hbinding, h.bound⟩⟩

def ReadsMembers (key : String) (methods : List Method) (nodes : List Node) : Prop :=
  ∀ n ∈ nodes, IsMemberOf key n ∧ n.AllBound (·.Fits key methods)

theorem ReadsMembers.append (h : ReadsMembers key methods xs) (h' : ReadsMembers key methods ys) :
    ReadsMembers key methods (xs ++ ys) := by
  intro n hn
  rcases List.mem_append.mp hn with hn | hn
  · exact h n hn
  · exact h' n hn

theorem ReadsMembers.bound (h : ReadsMembers key methods nodes) :
    ∀ n ∈ nodes, n.AllBound (·.Fits key methods) :=
  fun n hn => (h n hn).2

theorem key_ne_of_length_lt {header : TypeHeader} {binding : TypeBinding}
    (hbinding : header.binding = some binding)
    (h : key.length < binding.key.length) : ∀ b ∈ header.binding, b.key ≠ key := by
  intro b hb hkey
  obtain rfl : b = binding := Option.some.inj (hb.symm.trans hbinding)
  exact absurd (congrArg String.length hkey) h.ne'

theorem readsMembers_emptyBlocks (pairs : List (Pair Declaration)) (index : Nat) :
    ReadsMembers key methods (pairs.mapIdx fun i pair => emptyBlock (index + i) pair) := by
  intro n hn
  obtain ⟨i, hi, rfl⟩ := List.mem_mapIdx.mp hn
  exact ⟨.initializer (by simp), .of_children rfl (by simp [emptyBlock, children])⟩

mutual
theorem code_keeps {s : Scopes} (hs : s.Within key methods) (c : Code) :
    Keeps key methods (code source s c) (Reads key methods) := by
  cases c with
  | literal | name | this =>
    rw [code]
    exact .pure .nil
  | call site qualifier member arguments =>
    rw [code]
    refine .bindingIf hs fun binding hbinding => ?_
    refine .bind (codes_keeps hs arguments) fun nodes hnodes => .pure fun n hn => ?_
    obtain rfl := List.mem_singleton.mp hn
    exact reads_call hbinding hnodes member _
  | create type arguments body =>
    rw [code]
    exact .bind (codes_keeps hs arguments) fun xs hxs =>
      .bind (anonymousClass_keeps hs body) fun ys hys => .pure (hxs.append hys)
  | createInner arguments body =>
    rw [code]
    exact .bind (codes_keeps hs arguments) fun xs hxs =>
      .bind (anonymousClass_keeps hs body) fun ys hys => .pure (hxs.append hys)
  | createArray type dimensions parts =>
    rw [code]
    exact codes_keeps hs parts
  | cast type operand =>
    rw [code]
    exact code_keeps hs operand
  | binary operator left right =>
    rw [code]
    exact .bind (code_keeps hs left) fun xs hxs =>
      .bind (code_keeps hs right) fun ys hys => .pure (hxs.append hys)
  | conditional condition whenTrue whenFalse =>
    rw [code]
    exact .bind (code_keeps hs condition) fun xs hxs =>
      .bind (code_keeps hs whenTrue) fun ys hys =>
      .bind (code_keeps hs whenFalse) fun zs hzs => .pure ((hxs.append hys).append hzs)
  | select target selectorList =>
    cases target with
    | this qualifier =>
      rw [code]
      exact selectors_keeps hs _ selectorList
    | _ =>
      rw [code]
      · exact .bind (code_keeps hs _) fun xs hxs =>
          .bind (selectors_keeps hs false selectorList) fun ys hys => .pure (hxs.append hys)
      · exact nofun
  | declare declared parts =>
    rw [code]
    exact codes_keeps hs parts
  | localType declaration =>
    rw [code]
    have hkey := hs.length_lt "$local$" (by decide) declaration.head.name
    refine .bind (typeNode_keeps _ 0 none declaration (hs.enter ⟨_, _, false, false⟩ hkey _))
      fun n hn => .pure fun found hfound => ?_
    obtain ⟨place, header, members, rfl, hbinding, hmembers⟩ := hn
    obtain rfl := List.mem_singleton.mp hfound
    exact ⟨.type (key_ne_of_length_lt hbinding hkey), .of_children rfl hmembers.bound⟩
  | primary parts =>
    rw [code]
    exact codes_keeps hs parts
  | compound parts =>
    rw [code]
    exact codes_keeps hs parts

theorem codes_keeps {s : Scopes} (hs : s.Within key methods) (cs : List Code) :
    Keeps key methods (codes source s cs) (Reads key methods) := by
  cases cs with
  | nil =>
    rw [codes]
    exact .pure .nil
  | cons c cs =>
    rw [codes]
    exact .bind (code_keeps hs c) fun xs hxs =>
      .bind (codes_keeps hs cs) fun ys hys => .pure (hxs.append hys)

theorem selectors_keeps {s : Scopes} (hs : s.Within key methods) (behindThis : Bool) (cs : List Code) :
    Keeps key methods (selectors source s behindThis cs) (Reads key methods) := by
  cases cs with
  | nil =>
    rw [selectors]
    exact .pure .nil
  | cons c cs =>
    cases c with
    | call site qualifier member arguments =>
      rw [selectors]
      refine .bindingIf hs fun binding hbinding => ?_
      refine .bind (codes_keeps hs arguments) fun nodes hnodes => ?_
      refine .bind (selectors_keeps hs false cs) fun rest hrest => .pure fun n hn => ?_
      rcases List.mem_cons.mp hn with rfl | hn
      · exact reads_call hbinding hnodes member _
      · exact hrest n hn
    | _ =>
      rw [selectors]
      · exact .bind (code_keeps hs _) fun xs hxs =>
          .bind (selectors_keeps hs false cs) fun ys hys => .pure (hxs.append hys)
      · exact nofun

theorem anonymousClass_keeps {s : Scopes} (hs : s.Within key methods) (body : Option (List Declaration)) :
    Keeps key methods (anonymousClass source s body) (Reads key methods) := by
  cases body with
  | none =>
    rw [anonymousClass]
    exact .pure .nil
  | some declarations =>
    rw [anonymousClass]
    refine .bind .nextAnonymous fun number _ => ?_
    have hkey := hs.length_lt "$" (by decide) (toString number)
    have hinner := hs.enter ⟨"", _, false, true⟩ hkey declarations
    refine .bind (membersFrom_keeps hinner _ _ _ _ declarations)
      fun members hmembers => .pure fun n hn => ?_
    obtain rfl := List.mem_singleton.mp hn
    exact ⟨.anonymousClass, .of_children rfl hmembers.bound⟩

theorem typeNode_keeps {s : Scopes} (binding : TypeBinding) (index : Nat)
    (span : Option (Nat × Nat)) (t : TypeDeclaration)
    (hs : Scopes.Within key methods
      { s with types := scopeOf binding t.declarations :: s.types }) :
    Keeps key methods (typeNode source s index span binding t) fun n =>
      ∃ place header members, n = .type place header members ∧ header.binding = some binding ∧
        ReadsMembers key methods members := by
  obtain ⟨head, annotations, constants, declarations⟩ := t
  rw [typeNode]
  refine .bind (.lift _) fun layout _ => ?_
  refine .bind (membersFrom_keeps hs _ _ _ _ constants) fun front hfront => ?_
  refine .bind (membersFrom_keeps hs _ _ _ _ declarations) fun back hback => .pure ?_
  exact ⟨_, _, _, rfl, rfl, hfront.append hback⟩

theorem membersFrom_keeps {s : Scopes} (hs : s.Within key methods) (outer : Variables) (index : Nat)
    (pairs : List (Pair Declaration)) (current : Variables) (ds : List Declaration) :
    Keeps key methods (membersFrom source s outer index pairs current ds)
      (ReadsMembers key methods) := by
  cases ds with
  | nil =>
    rw [membersFrom]
    exact .pure (readsMembers_emptyBlocks pairs index)
  | cons d ds =>
    rw [membersFrom]
    refine .bind (member_keeps hs _ _ _ _ d) fun found hfound => ?_
    refine .bind (membersFrom_keeps hs _ _ _ _ ds) fun rest hrest => .pure fun n hn => ?_
    rcases List.mem_append.mp hn with hn | hn
    · exact readsMembers_emptyBlocks _ index n hn
    · rcases List.mem_cons.mp hn with rfl | hn
      · exact hfound
      · exact hrest n hn

theorem member_keeps {s : Scopes} (hs : s.Within key methods) (outer : Variables) (index : Nat)
    (pair : Pair Declaration) (current : Variables) (d : Declaration) :
    Keeps key methods (member source s outer index pair current d) fun found =>
      IsMemberOf key found.1 ∧ found.1.AllBound (·.Fits key methods) := by
  -- variables do not matter
  have hlocals (locals : Variables) : Scopes.Within key methods { s with locals } :=
    ⟨hs.owner, hs.methods⟩
  cases d with
  | method header annotations parameters body =>
    rw [member]
    refine .bind (codes_keeps (hlocals _) body) fun nodes hnodes => .pure ?_
    exact ⟨.method hnodes.isCode, .of_children rfl hnodes.bound⟩
  | block statements =>
    rw [member]
    refine .bind (codes_keeps (hlocals _) statements) fun nodes hnodes => .pure ?_
    exact ⟨.initializer hnodes.isCode, .of_children rfl hnodes.bound⟩
  | field head annotations initializers =>
    rw [member]
    refine .bind (codes_keeps (hlocals _) initializers) fun nodes hnodes => .pure ?_
    exact ⟨.field hnodes.isCode, .of_children rfl hnodes.bound⟩
  | enumConstant name annotations arguments body =>
    rw [member]
    refine .bind (codes_keeps (hlocals _) arguments) fun nodes hnodes => ?_
    refine .bind (anonymousClass_keeps (hlocals _) body) fun found hfound => .pure ?_
    have hbody : Reads key methods found.head?.toList := fun n hn =>
      hfound n (List.mem_of_head? (Option.mem_toList.mp hn))
    exact ⟨.enumConstant hnodes.isCode fun n hn => hbody.isCode n (Option.mem_toList.mpr hn),
      .of_children rfl (hnodes.append hbody).bound⟩
  | annotationMember name returnType =>
    rw [member]
    exact .pure ⟨.annotationMember, .of_children rfl (by simp [children])⟩
  | type declaration =>
    rw [member]
    have hkey := hs.length_lt "$" (by decide) declaration.head.name
    refine .bind (typeNode_keeps _ index pair.span declaration
      ((hlocals _).enter ⟨_, _, false, false⟩ hkey _)) fun n hn => .pure ?_
    obtain ⟨place, header, members, rfl, hbinding, hmembers⟩ := hn
    exact ⟨.type (key_ne_of_length_lt hbinding hkey), .of_children rfl hmembers.bound⟩

end

-- the methods in scope are those that become members

theorem filterMap_header_emptyBlocks (pairs : List (Pair Declaration)) (index : Nat) :
    (pairs.mapIdx fun i pair => emptyBlock (index + i) pair).filterMap Node.header? = [] := by
  rw [List.filterMap_eq_nil_iff]
  intro n hn
  obtain ⟨i, hi, rfl⟩ := List.mem_mapIdx.mp hn
  rfl

theorem membersFrom_gives_headers (outer : Variables) (index : Nat) (pairs : List (Pair Declaration))
    (current : Variables) (ds : List Declaration) :
    Gives (membersFrom source s outer index pairs current ds) fun nodes =>
      nodes.filterMap Node.header? = ds.filterMap methodOf? := by
  induction ds generalizing index pairs current with
  | nil =>
    rw [membersFrom]
    exact .pure (filterMap_header_emptyBlocks pairs index)
  | cons d ds ih =>
    rw [membersFrom]
    refine .bind (member_becomes _ _ d) fun found hfound => ?_
    refine .bind (ih _ _ _) fun rest hrest => .pure ?_
    rw [List.filterMap_append, filterMap_header_emptyBlocks, List.nil_append,
      List.filterMap_cons, List.filterMap_cons, hfound.header, hrest]

theorem typeNode_gives_headers (index : Nat) (span : Option (Nat × Nat)) (binding : TypeBinding) :
    Gives (typeNode source s index span binding (.mk head annotations constants declarations))
      fun n => n.children.filterMap Node.header? = (constants ++ declarations).filterMap methodOf? := by
  rw [typeNode]
  refine .behind fun layout => ?_
  refine .bind (membersFrom_gives_headers _ _ _ _ constants) fun front hfront => ?_
  refine .bind (membersFrom_gives_headers _ _ _ _ declarations) fun back hback => .pure ?_
  rw [children, List.filterMap_append, List.filterMap_append, hfront, hback]

end Convert

-- ---------------------------------------------------------------------------
-- Units
-- ---------------------------------------------------------------------------

open Node (IsUnitOf IsBound)

theorem Scopes.within_top (binding : TypeBinding) (declarations : List Declaration) :
    Scopes.Within binding.key (declarations.filterMap Convert.methodOf?)
      { types := [Convert.scopeOf binding declarations] } := by
  refine ⟨Nat.le_refl _, fun scope hscope _ => ?_⟩
  obtain rfl := List.mem_singleton.mp hscope
  rfl

theorem Convert.methodOf?_written {spelled : String → Prop} {ds : List Declaration}
    (h : ∀ d ∈ ds, d.Written spelled) (hm : m ∈ ds.filterMap methodOf?) : m.Written spelled := by
  obtain ⟨d, hd, hmethod⟩ := List.mem_filterMap.mp hm
  cases d with
  | method =>
    cases hmethod
    exact h _ hd
  | _ => cases hmethod

theorem readUnit_isBound (h : readUnit text = .ok root) :
    ∃ key members, IsBound key members root := by
  simp only [readUnit, bind_eq_ok] at h
  obtain ⟨tokens, htokens, parsed, hparsed, types, htypes, h⟩ := h
  cases h
  unfold typeNodes at htypes
  split at htypes
  · cases htypes
    exact ⟨"", [], .empty, .of_children rfl (by simp [Node.children]), by simp⟩
  · rename_i first rest hfirst
    simp only [bind_eq_ok] at htypes
    obtain ⟨⟨node, progress⟩, hnode, htypes⟩ := htypes
    cases htypes
    have hwritten := CompilationUnit.ofTokens_written (Token.ofSource_spells (ok_of_mapError htokens))
      (ok_of_mapError hparsed) first (hfirst ▸ List.mem_cons_self)
    obtain ⟨head, annotations, constants, declarations⟩ := first
    let binding := topLevelBinding parsed.package head.name
    obtain ⟨⟨place, header, members, rfl, hbinding, hmembers⟩, -⟩ :=
      Convert.typeNode_keeps binding 0 none _ (Scopes.within_top binding declarations) {} node
        progress (by simp [Resolved.Fits]) hnode
    have hheaders : members.filterMap Node.header? = (constants ++ declarations).filterMap
      Convert.methodOf? := Convert.typeNode_gives_headers 0 none _ _ _ _ hnode
    refine ⟨binding.key, members, .typed hbinding rfl rfl (fun n hn => (hmembers n hn).1) ?_, ?_, ?_⟩
    · intro n hn
      obtain ⟨i, hi, rfl⟩ := List.mem_mapIdx.mp hn
      exact ⟨_, _, _, rfl, .inl rfl⟩
    · refine .of_children rfl fun n hn => ?_
      rcases List.mem_cons.mp hn with rfl | hn
      · refine .of_children rfl fun child hchild => (hmembers.bound child hchild).mono ?_
        intro b hb t ht hkey
        obtain ⟨m, hm, hfits⟩ := hb t ht hkey
        rw [hheaders, List.filterMap_append]
        exact ⟨m, List.mem_append_right _ hm, hfits⟩
      · obtain ⟨i, hi, rfl⟩ := List.mem_mapIdx.mp hn
        exact .of_children rfl (by simp [shallowType, Node.children])
    · intro m hm
      rw [hheaders] at hm
      exact Convert.methodOf?_written hwritten hm

/-- Calls to the type of a unit go to methods that the type declares. -/
theorem readUnit_isUnitOf (h : readUnit text = .ok root) :
    ∃ key members, IsUnitOf key members root ∧
      ∀ n ∈ members, n.CallsOnly key (members.filterMap Node.header?) := by
  obtain ⟨key, members, hbound⟩ := readUnit_isBound h
  exact ⟨key, members, hbound.unit, hbound.only⟩

end Java

end CallerFirst
