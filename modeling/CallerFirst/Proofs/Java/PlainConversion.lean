import CallerFirst.Proofs.Java.Lockstep
import CallerFirst.Proofs.Java.Parser.Sites
import CallerFirst.Proofs.Java.PlainResolution
import CallerFirst.Proofs.Java.Token.InOrder

/-!
# Conversion without memory

`Plain` converts code as `Convert` does, and resolves each call where it stands and nowhere else: by
what is visible there, with the types of its arguments inferred anew. Both give the same trees
(`readUnit_eq_plain`), as no two calls of a unit stand at one place.
-/

namespace CallerFirst.Java

abbrev Plain := StateT Nat (Except Fault)

namespace Plain

open CallerFirst.Java.Convert (ownerKey scopeOf placeOf emptyBlock layoutOf typeHeader splitBlocks)

def nextAnonymous : Plain Nat :=
  modifyGet fun n => (n + 1, n + 1)

def bindCall (s : Scopes) (member : String) (arguments : List Code) : Option MethodBinding :=
  (s.plainResolve member arguments).map fun r =>
    { name := r.method.name
      parameterTypes := r.method.parameterTypes
      declaringType := some r.declaringType }

mutual
def code (source : Source) (s : Scopes) : Code → Plain (List Node)
  | .literal _ | .name _ _ | .this _ => return []
  | .call _ qualifier member arguments => do
    let binding ← if qualifier.isEmpty then pure (bindCall s member arguments) else pure none
    return [.call member (!qualifier.isEmpty) binding (← codes source s arguments)]
  | .create _ arguments body => do
    return (← codes source s arguments) ++ (← anonymousClass source s body)
  | .createInner arguments body => do
    return (← codes source s arguments) ++ (← anonymousClass source s body)
  | .createArray _ _ parts => codes source s parts
  | .cast _ operand => code source s operand
  | .binary _ left right => do
    return (← code source s left) ++ (← code source s right)
  | .conditional condition whenTrue whenFalse => do
    return (← code source s condition) ++ (← code source s whenTrue) ++ (← code source s whenFalse)
  | .select (.this qualifier) selectorList => selectors source s qualifier.isEmpty selectorList
  | .select target selectorList => do
    return (← code source s target) ++ (← selectors source s false selectorList)
  | .declare _ parts => codes source s parts
  | .localType declaration => do
    let head := declaration.head
    let key := ownerKey s ++ "$local$" ++ head.name
    return [← typeNode source s 0 none { name := head.name, key, isTopLevel := false } declaration]
  | .primary parts => codes source s parts
  | .compound parts => codes source s parts
def codes (source : Source) (s : Scopes) : List Code → Plain (List Node)
  | [] => return []
  | c :: rest => do
    return (← code source s c) ++ (← codes source s rest)
/-- A call among selectors is bound where it stands first behind a plain `this`. -/
def selectors (source : Source) (s : Scopes) (behindThis : Bool) : List Code → Plain (List Node)
  | [] => return []
  | .call _ _ member arguments :: rest => do
    let binding ← if behindThis then pure (bindCall s member arguments) else pure none
    let node := Node.call member (!behindThis) binding (← codes source s arguments)
    return node :: (← selectors source s false rest)
  | c :: rest => do
    return (← code source s c) ++ (← selectors source s false rest)
def anonymousClass (source : Source) (s : Scopes) : Option (List Declaration) → Plain (List Node)
  | none => return []
  | some declarations => do
    let number ← nextAnonymous
    let key := ownerKey s ++ "$" ++ toString number
    let binding : TypeBinding := { name := "", key, isTopLevel := false, isAnonymous := true }
    let inner : Scopes := { s with types := scopeOf binding declarations :: s.types }
    let members ←
      membersFrom source inner s.locals 0 (Pair.unplaced declarations) s.locals declarations
    return [.anonymousClass (some binding) members]
def typeNode (source : Source) (s : Scopes) (index : Nat) (span : Option (Nat × Nat))
    (binding : TypeBinding) : TypeDeclaration → Plain Node
  | .mk head _ constants declarations => do
    let layout ← layoutOf source head constants declarations
    let inner : Scopes := { s with types := scopeOf binding declarations :: s.types }
    let front ← membersFrom source inner s.locals 0 layout.constants s.locals constants
    let back ←
      membersFrom source inner s.locals layout.constants.length layout.members s.locals declarations
    return .type (placeOf index ⟨none, span, false⟩) (typeHeader head binding layout) (front ++ back)
def membersFrom (source : Source) (s : Scopes) (outer : Variables) (index : Nat)
    (pairs : List (Pair Declaration)) (current : Variables) : List Declaration → Plain (List Node)
  | [] => return pairs.mapIdx fun i pair => emptyBlock (index + i) pair
  | d :: declarations => do
    let (blocks, pairs) := splitBlocks pairs
    let current := if blocks.isEmpty then current else outer
    let start := index + blocks.length
    let pair := pairs.headD ⟨none, none, false⟩
    let (node, current) ← member source s outer start pair current d
    let rest ← membersFrom source s outer (start + 1) pairs.tail current declarations
    return blocks.mapIdx (fun i pair => emptyBlock (index + i) pair) ++ node :: rest
def member (source : Source) (s : Scopes) (outer : Variables) (index : Nat)
    (pair : Pair Declaration) (current : Variables) : Declaration → Plain (Node × Variables)
  | .method header annotations parameters body => do
    let declared := localsOfAll annotations ++ localsOfAll parameters ++ localsOfAll body
    let inner := declared ++ outer
    let nodes ← codes source { s with locals := inner } body
    return (.method (placeOf index pair) header nodes, inner)
  | .block statements => do
    let inner := localsOfAll statements ++ outer
    let nodes ← codes source { s with locals := inner } statements
    return (.initializer (placeOf index pair) pair.isStatic nodes, inner)
  | .field head _ initializers => do
    let nodes ← codes source { s with locals := outer } initializers
    let names := head.declarators.map (·.name)
    return (.field (placeOf index pair) head.type.render names head.modifiers nodes, outer)
  | .enumConstant name _ arguments body => do
    let inner := { s with locals := outer }
    let nodes ← codes source inner arguments
    let bodyNode ← anonymousClass source inner body
    return (.enumConstant (placeOf index pair) name nodes bodyNode.head?, outer)
  | .annotationMember name returnType _ _ =>
    return (.annotationMember (placeOf index pair) name (some returnType.render), outer)
  | .type declaration => do
    let head := declaration.head
    let key := ownerKey s ++ "$" ++ head.name
    let binding : TypeBinding := { name := head.name, key, isTopLevel := false }
    let node ← typeNode source { s with locals := current } index pair.span binding declaration
    return (node, current)
end

def typeNodes (source : Source) (unit : CompilationUnit) : Except Fault (List Node) :=
  match unit.types with
  | [] => .ok []
  | first :: rest => do
    let binding := topLevelBinding unit.package first.head.name
    let (node, _) ← (typeNode source {} 0 none binding first).run 0
    return node :: rest.mapIdx fun i t => shallowType unit.package (i + 1) t.head

def readUnit (text : String) : Except Fault Node := do
  let chars := text.toList
  let tokens ← (Token.ofSource chars).mapError .lexical
  let unit ← (CompilationUnit.ofTokens tokens).mapError .parse
  let types ← typeNodes (.ofTokens chars tokens) unit
  return .unit text unit.package types

end Plain

-- ---------------------------------------------------------------------------
-- One conversion follows the other
-- ---------------------------------------------------------------------------

/-- A conversion gives what a plain one gives, and resolves no calls but those expected. -/
def Follows (e : Expected) (x : Convert α) (y : Plain α) : Prop :=
  e.Distinct → ∀ p : Progress, e.Allows p.resolved →
    (x.run p).map (fun found => (found.1, found.2.anonymous)) = y.run p.anonymous ∧
      ∀ a q, x.run p = .ok (a, q) → ∀ site ∉ e.map Prod.fst,
        q.resolved.lookup site = p.resolved.lookup site

namespace Follows

variable {e e₁ e₂ : Expected}

theorem pure (a : α) : Follows e (Pure.pure a) (Pure.pure a) := by
  refine fun _ p _ => ⟨rfl, ?_⟩
  rintro b q ⟨⟩ site -
  rfl

theorem bind {x : Convert β} {y : Plain β} {f : β → Convert α} {g : β → Plain α}
    (hx : Follows e₁ x y) (hf : ∀ b, Follows e₂ (f b) (g b)) :
    Follows (e₁ ++ e₂) (x >>= f) (y >>= g) := by
  intro hdistinct p hp
  obtain ⟨hdistinct₁, hdistinct₂, hapart⟩ := Expected.distinct_append.mp hdistinct
  obtain ⟨hp₁, hp₂⟩ := Expected.allows_append.mp hp
  obtain ⟨hgives, hframe⟩ := hx hdistinct₁ p hp₁
  rw [StateT.run_bind, StateT.run_bind, ← hgives]
  cases hrun : x.run p with
  | error fault => exact ⟨rfl, nofun⟩
  | ok found =>
    obtain ⟨b, next⟩ := found
    have hnext : e₂.Allows next.resolved := hp₂.of_lookup_eq fun site hsite =>
      hframe b next hrun site fun hsite' => hapart site hsite' hsite
    obtain ⟨hgives', hframe'⟩ := hf b hdistinct₂ next hnext
    refine ⟨hgives', fun a q hlast site hsite => ?_⟩
    rw [List.map_append, List.mem_append, not_or] at hsite
    exact (hframe' a q hlast site hsite.2).trans (hframe b next hrun site hsite.1)

theorem map {x : Convert β} {y : Plain β} (hx : Follows e x y) (f : β → α) :
    Follows e (x >>= fun b => Pure.pure (f b)) (y >>= fun b => Pure.pure (f b)) := by
  simpa using bind hx fun b => pure (e := []) (f b)

theorem mono {x : Convert α} {y : Plain α} (h : Follows e₁ x y) (hsub : e₁.Sublist e) :
    Follows e x y := by
  intro hdistinct p hp
  obtain ⟨hgives, hframe⟩ := h (hdistinct.sublist (hsub.map _)) p fun entry hentry =>
    hp entry (hsub.subset hentry)
  exact ⟨hgives, fun a q hrun site hsite =>
    hframe a q hrun site fun hsite' => hsite ((hsub.map _).subset hsite')⟩

/-- Calls that were not resolved so far may be expected to be resolved to anything. -/
theorem of_untouched [Sited β] {b : β} {x : Convert α} {y : Plain α} (h : Follows e x y)
    (he : e.map Prod.fst = sites b) : Follows (untouched b) x y := by
  intro hdistinct p hp
  have hsites : e.map Prod.fst = (untouched b).map Prod.fst := by rw [he, map_fst_untouched]
  rw [Expected.Distinct, ← hsites] at hdistinct
  have hallows : e.Allows p.resolved := fun entry hentry found hfound => by
    have hsite : entry.1 ∈ sites b := he ▸ List.mem_map_of_mem hentry
    exact absurd (hp (entry.1, none) (List.mem_map_of_mem hsite) found hfound) (by simp)
  rw [← hsites]
  exact h hdistinct p hallows

theorem behind {x : Except Fault β} {f : β → Convert α} {g : β → Plain α}
    (hf : ∀ b, Follows e (f b) (g b)) :
    Follows e ((liftM x : Convert β) >>= f) ((liftM x : Plain β) >>= g) := by
  cases x with
  | error => exact fun _ p _ => ⟨rfl, nofun⟩
  | ok b => exact hf b

theorem numbered {f : Nat → Convert α} {g : Nat → Plain α} (hf : ∀ n, Follows e (f n) (g n)) :
    Follows e (Convert.nextAnonymous >>= f) (Plain.nextAnonymous >>= g) :=
  fun hdistinct p hp => hf _ hdistinct { p with anonymous := p.anonymous + 1 } hp

theorem resolving {x : StateM Resolved β} (hx : e.Distinct → Infers e x b) {f : β → Convert α}
    {y : Plain α} (hf : Follows e (f b) y) : Follows e (Convert.resolving x >>= f) y := by
  intro hdistinct p hp
  obtain ⟨rfl, hnext, hframe⟩ := hx hdistinct p.resolved hp
  obtain ⟨hgives, hframe'⟩ := hf hdistinct { p with resolved := (x.run p.resolved).2 } hnext
  exact ⟨hgives, fun a q hrun site hsite => (hframe' a q hrun site hsite).trans (hframe site hsite)⟩

theorem bindingIf {s : Scopes} (hsite : (site, some (s.plainResolve name arguments)) ∈ e)
    (harguments : expectsAll s arguments ⊆ e) {f : Option MethodBinding → Convert α}
    {g : Option MethodBinding → Plain α} (hf : ∀ b, Follows e (f b) (g b)) :
    Follows e
      (if isPlain = true then Convert.bindCall s site name arguments >>= f
        else Pure.pure none >>= f)
      (if isPlain = true then Pure.pure (Plain.bindCall s name arguments) >>= g
        else Pure.pure none >>= g) := by
  split
  · rw [Convert.bindCall, bind_assoc]
    exact .resolving (fun he => resolve_infers he hsite harguments) (hf _)
  · exact hf none

end Follows

variable {source : Source}

theorem Plain.code_select (source : Source) (s : Scopes) {target : Code}
    (h : ∀ qualifier, target ≠ .this qualifier) (selectorList : List Code) :
    Plain.code source s (.select target selectorList) = do
      return (← Plain.code source s target) ++ (← Plain.selectors source s false selectorList) := by
  rw [Plain.code]
  exact h

theorem Plain.selectors_cons (source : Source) (s : Scopes) (behindThis : Bool) {c : Code}
    (h : ∀ site qualifier member arguments, c ≠ .call site qualifier member arguments)
    (cs : List Code) :
    Plain.selectors source s behindThis (c :: cs) = do
      return (← Plain.code source s c) ++ (← Plain.selectors source s false cs) := by
  rw [Plain.selectors]
  exact h

mutual
theorem code_follows {s : Scopes} (c : Code) :
    Follows (c.expects s) (Convert.code source s c) (Plain.code source s c) := by
  cases c with
  | literal | name | this =>
    rw [Convert.code, Plain.code]
    exact .pure []
  | call site qualifier member arguments =>
    rw [Code.expects, Convert.code, Plain.code]
    refine .bindingIf (List.mem_cons_self ..) (List.subset_cons_self ..) fun binding => ?_
    exact .mono (.map (codes_follows arguments) _) (List.sublist_cons_self ..)
  | create type arguments body =>
    rw [Code.expects, Convert.code, Plain.code]
    exact .bind (codes_follows arguments) fun _ => .map (anonymousClass_follows body) _
  | createInner arguments body =>
    rw [Code.expects, Convert.code, Plain.code]
    exact .bind (codes_follows arguments) fun _ => .map (anonymousClass_follows body) _
  | createArray type dimensions parts =>
    rw [Code.expects, Convert.code, Plain.code]
    exact codes_follows parts
  | cast type operand =>
    rw [Code.expects, Convert.code, Plain.code]
    exact code_follows operand
  | binary operator left right =>
    rw [Code.expects, Convert.code, Plain.code]
    exact .bind (code_follows left) fun _ => .map (code_follows right) _
  | conditional condition whenTrue whenFalse =>
    rw [Code.expects, Convert.code, Plain.code]
    exact .bind (code_follows condition) fun _ =>
      .bind (code_follows whenTrue) fun _ => .map (code_follows whenFalse) _
  | select target selectorList =>
    rw [Code.expects]
    by_cases hthis : ∃ qualifier, target = .this qualifier
    · obtain ⟨qualifier, rfl⟩ := hthis
      rw [Code.expects, Convert.code, Plain.code]
      exact selectors_follows _ selectorList
    · rw [not_exists] at hthis
      rw [Comparison.code_select _ _ hthis, Plain.code_select _ _ hthis]
      exact .bind (code_follows target) fun _ => .map (selectors_follows false selectorList) _
  | declare declared parts =>
    rw [Code.expects, Convert.code, Plain.code]
    exact codes_follows parts
  | localType t =>
    rw [Code.expects, Convert.code, Plain.code]
    exact .map (typeNode_follows 0 none _ t) _
  | primary parts =>
    rw [Code.expects, Convert.code, Plain.code]
    exact codes_follows parts
  | compound parts =>
    rw [Code.expects, Convert.code, Plain.code]
    exact codes_follows parts

theorem codes_follows {s : Scopes} (cs : List Code) :
    Follows (expectsAll s cs) (Convert.codes source s cs) (Plain.codes source s cs) := by
  cases cs with
  | nil =>
    rw [Convert.codes, Plain.codes]
    exact .pure []
  | cons c cs =>
    rw [expectsAll, Convert.codes, Plain.codes]
    exact .bind (code_follows c) fun _ => .map (codes_follows cs) _

theorem selectors_follows {s : Scopes} (behindThis : Bool) (cs : List Code) :
    Follows (expectsAll s cs) (Convert.selectors source s behindThis cs)
      (Plain.selectors source s behindThis cs) := by
  cases cs with
  | nil =>
    rw [Convert.selectors, Plain.selectors]
    exact .pure []
  | cons c cs =>
    rw [expectsAll]
    by_cases hcall : ∃ site qualifier member arguments, c = .call site qualifier member arguments
    · cases c with
      | call site qualifier member arguments =>
        rw [Code.expects, Convert.selectors, Plain.selectors]
        refine .bindingIf (by simp) (by simp) fun binding => ?_
        refine .mono (.bind (codes_follows arguments) fun _ => .map (selectors_follows false cs) _) ?_
        exact List.sublist_cons_self ..
      | _ => simp at hcall
    · simp only [not_exists] at hcall
      rw [Comparison.selectors_cons _ _ _ hcall, Plain.selectors_cons _ _ _ hcall]
      exact .bind (code_follows c) fun _ => .map (selectors_follows false cs) _

theorem anonymousClass_follows {s : Scopes} (body : Option (List Declaration)) :
    Follows (untouched body) (Convert.anonymousClass source s body)
      (Plain.anonymousClass source s body) := by
  cases body with
  | none =>
    rw [Convert.anonymousClass, Plain.anonymousClass]
    exact .pure []
  | some ds =>
    rw [Convert.anonymousClass, Plain.anonymousClass]
    exact .numbered fun number => .map (membersFrom_follows _ _ _ _ ds) _

theorem typeNode_follows {s : Scopes} (index : Nat) (span : Option (Nat × Nat))
    (binding : TypeBinding) (t : TypeDeclaration) :
    Follows (untouched t) (Convert.typeNode source s index span binding t)
      (Plain.typeNode source s index span binding t) := by
  obtain ⟨head, annotations, constants, ds⟩ := t
  rw [untouched_mk, Convert.typeNode, Plain.typeNode]
  refine .behind fun layout => ?_
  exact .bind (membersFrom_follows _ _ _ _ constants) fun front =>
    .map (membersFrom_follows _ _ _ _ ds) _

theorem membersFrom_follows {s : Scopes} (outer : Variables) (index : Nat)
    (pairs : List (Pair Declaration)) (current : Variables) (ds : List Declaration) :
    Follows (untouched ds) (Convert.membersFrom source s outer index pairs current ds)
      (Plain.membersFrom source s outer index pairs current ds) := by
  cases ds with
  | nil =>
    rw [Convert.membersFrom, Plain.membersFrom]
    exact .pure _
  | cons d ds =>
    rw [untouched_cons, Convert.membersFrom, Plain.membersFrom]
    exact .bind (member_follows _ _ _ _ d) fun _ => .map (membersFrom_follows _ _ _ _ ds) _

theorem member_follows {s : Scopes} (outer : Variables) (index : Nat) (pair : Pair Declaration)
    (current : Variables) (d : Declaration) :
    Follows (untouched d) (Convert.member source s outer index pair current d)
      (Plain.member source s outer index pair current d) := by
  cases d with
  | method header annotations parameters body =>
    rw [Convert.member, Plain.member]
    exact .of_untouched (.map (codes_follows body) _) (by simp [map_fst_expectsAll])
  | block statements =>
    rw [Convert.member, Plain.member]
    exact .of_untouched (.map (codes_follows statements) _) (by simp [map_fst_expectsAll])
  | field head annotations initializers =>
    rw [Convert.member, Plain.member]
    exact .of_untouched (.map (codes_follows initializers) _) (by simp [map_fst_expectsAll])
  | enumConstant name annotations arguments body =>
    rw [Convert.member, Plain.member]
    refine .of_untouched (.bind (codes_follows arguments) fun _ =>
      .map (anonymousClass_follows body) _) ?_
    simp [map_fst_expectsAll, map_fst_untouched]
  | annotationMember name returnType =>
    rw [Convert.member, Plain.member]
    exact .pure _
  | type t =>
    rw [Convert.member, Plain.member]
    exact .map (typeNode_follows _ _ _ t) _
end

-- ---------------------------------------------------------------------------
-- Units
-- ---------------------------------------------------------------------------

theorem typeNodes_eq_plain (source : Source) (unit : CompilationUnit) (h : (sites unit).Nodup) :
    typeNodes source unit = Plain.typeNodes source unit := by
  obtain ⟨package, types⟩ := unit
  cases types with
  | nil => rfl
  | cons first rest =>
    let binding := topLevelBinding package first.head.name
    have hdistinct : (untouched first).Distinct := by
      rw [Expected.Distinct, map_fst_untouched]
      exact (List.nodup_append'.mp h).1
    have hfollows : Follows (untouched first) (Convert.typeNode source {} 0 none binding first)
        (Plain.typeNode source {} 0 none binding first) := typeNode_follows 0 none binding first
    obtain ⟨hgives, -⟩ := hfollows hdistinct {} (by simp [Expected.Allows])
    simp only [typeNodes, Plain.typeNodes]
    rw [← hgives]
    cases (Convert.typeNode source {} 0 none binding first).run {} <;> rfl

/-- Calls are bound as if each was resolved where it stands, and nothing was kept: in every unit whose
calls stand at places of their own, and so in every unit that is read. -/
theorem readUnit_eq_plain :
    (∀ (source : Source) (unit : CompilationUnit), (sites unit).Nodup →
      typeNodes source unit = Plain.typeNodes source unit) ∧
    ∀ text, readUnit text = Plain.readUnit text := by
  refine ⟨typeNodes_eq_plain, fun text => ?_⟩
  refine bind_congr_ok fun tokens htokens => bind_congr_ok fun unit hunit => ?_
  rw [typeNodes_eq_plain _ _ (CompilationUnit.nodup_sites
    (Token.nodup_position (ok_of_mapError htokens)) (ok_of_mapError hunit))]

/-- The argument `g()` is resolved with the call of `f`, then a class in front of it hides its method. -/
def hiddenMethod : String :=
  "class A{int g(){}void f(String s){}void f(B b,int c){}void m(){f(new B(){String g(){f(g());}},g());}}"

def hiddenMethodUnit : CompilationUnit :=
  ((Token.ofSource hiddenMethod.toList).toOption.bind fun tokens =>
    (CompilationUnit.ofTokens tokens).toOption).getD ⟨"", []⟩

theorem readUnit_eq_plain_hiddenMethod :
    (sites hiddenMethodUnit).Nodup ∧
      (∀ source, typeNodes source hiddenMethodUnit = Plain.typeNodes source hiddenMethodUnit) ∧
      (Plain.readUnit hiddenMethod).toOption.map Node.calls = some
        [("f", some ⟨"f", ["B", "int"], some ⟨"A", "A", true, false⟩⟩),
         ("f", some ⟨"f", ["String"], some ⟨"A", "A", true, false⟩⟩),
         ("g", some ⟨"g", [], some ⟨"", "A$1", false, true⟩⟩),
         ("g", some ⟨"g", [], some ⟨"A", "A", true, false⟩⟩)] := by
  have hnodup : (sites hiddenMethodUnit).Nodup := by decide +kernel
  refine ⟨hnodup, fun source => readUnit_eq_plain.1 source _ hnodup, ?_⟩
  rw [← readUnit_eq_plain.2]
  decide +kernel

end CallerFirst.Java
