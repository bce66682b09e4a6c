import CallerFirst.Proofs.Java.Parser.Steady
import CallerFirst.Proofs.Java.Sites
import Mathlib.Data.List.Nodup

/-!
# Calls stand where tokens stand

A rule of the grammar takes the sites of the calls that it returns from the tokens that it passes
over, each token once. So no two calls of a unit have one site (`CompilationUnit.nodup_sites`), if no
two tokens have one place.
-/

namespace CallerFirst.Java

def Cursor.ahead (s : Cursor) : List Position :=
  s.rest.map (·.position)

namespace Parser

/-- The sites in what a parser returns are those held before, and places of tokens that it passed
over. -/
def Collects [Sited α] (held : List Position) (p : Parser α) : Prop :=
  ∀ s a t, p s = .ok a t → ∀ x, (sites a).count x + t.ahead.count x ≤
    held.count x + s.ahead.count x

theorem count_ahead_le {s t : Cursor} (h : t.rest <:+ s.rest) (x : Position) :
    t.ahead.count x ≤ s.ahead.count x :=
  (h.map _).sublist.count_le x

theorem Steady.count_ahead_le [hp : Steady p] (h : p s = .ok a t) (x : Position) :
    t.ahead.count x ≤ s.ahead.count x := by
  have hbehind := hp.behind s
  rw [h] at hbehind
  exact Parser.count_ahead_le hbehind.rest x

namespace Collects

variable [Sited α] [Sited β] {held : List Position}

theorem pure (h : ∀ x, (sites a).count x ≤ held.count x) :
    Collects held (Pure.pure a : Parser α) := by
  rintro s b t ⟨⟩ x
  exact Nat.add_le_add_right (h x) _

theorem weaken {p : Parser α} (h : Collects [] p) : Collects held p := by
  intro s a t hp x
  have := h s a t hp x
  rw [List.count_nil] at this
  omega

theorem bindHeld {p : Parser β} {f : β → Parser α} (hp : Collects given p)
    (hf : ∀ b, Collects (held ++ sites b) (f b)) : Collects (held ++ given) (p >>= f) := by
  intro s a t h x
  cases hb : p s with
  | ok b s' =>
    have hfirst := hp s b s' hb x
    have hrest := hf b s' a t (by simpa [Bind.bind, EStateM.bind, hb] using h) x
    rw [List.count_append] at hrest ⊢
    omega
  | error => simp [Bind.bind, EStateM.bind, hb] at h

theorem bind {p : Parser β} {f : β → Parser α} (hp : Collects [] p)
    (hf : ∀ b, Collects (held ++ sites b) (f b)) : Collects held (p >>= f) := by
  simpa using bindHeld hp hf

theorem behind {p : Parser γ} [hp : Steady p] {f : γ → Parser α}
    (hf : ∀ c, Collects held (f c)) : Collects held (p >>= f) := by
  intro s a t h x
  cases hc : p s with
  | ok c s' =>
    have hfirst := hp.count_ahead_le hc x
    have hrest := hf c s' a t (by simpa [Bind.bind, EStateM.bind, hc] using h) x
    omega
  | error => simp [Bind.bind, EStateM.bind, hc] at h

theorem named {f : Position → String → Parser α}
    (hf : ∀ site name, Collects (held ++ [site]) (f site name)) :
    Collects held (here >>= fun site => identifier >>= f site) := by
  intro s a t h x
  rcases s with ⟨_ | ⟨token, rest⟩, mark⟩
  · cases h
  · have hnext : (identifier >>= f token.position) ⟨token :: rest, mark⟩ = .ok a t := h
    by_cases hkind : Pattern.identifier.accepts token = true
    · have hrest : f token.position token.text ⟨rest, mark⟩ = .ok a t := by
        simpa [identifier, acceptOne, next, hkind, Bind.bind, EStateM.bind, Pure.pure, EStateM.pure]
          using hnext
      have := hf _ _ _ a t hrest x
      simp only [Cursor.ahead, List.map_cons, List.count_append, List.count_cons,
        List.count_nil] at this ⊢
      omega
    · simp [identifier, acceptOne, next, hkind, illegal, Bind.bind, EStateM.bind] at hnext

theorem throw (fault : ParseFault) : Collects held (MonadExcept.throw fault : Parser α) := by
  rintro s a t ⟨⟩

theorem illegal (description : String) : Collects held (Parser.illegal description : Parser α) := by
  rintro s a t ⟨⟩

theorem ite {c : Prop} [Decidable c] {p q : Parser α} (hp : Collects held p) (hq : Collects held q) :
    Collects held (if c then p else q) := by
  split
  · exact hp
  · exact hq

theorem speculate {p q : Parser α} [hsteady : Steady p] (hp : Collects [] p) (hq : Collects [] q) :
    Collects [] (Parser.speculate p q) := by
  intro s a t h x
  have hbehind := hsteady.behind { s with mark := s.rest }
  unfold Parser.speculate at h
  cases hfirst : p { s with mark := s.rest } with
  | ok b s' =>
    rw [hfirst] at h
    cases h
    exact hp _ a t hfirst x
  | error fault s' =>
    rw [hfirst] at h hbehind
    cases fault with
    | unexpected =>
      have hback := count_ahead_le (s := s) (t := ⟨s'.mark, s.mark⟩) hbehind.mark_suffix x
      have := hq _ a t h x
      omega
    | _ => cases h

section

variable {item : Parser α} (h : Collects [] item)

include h

theorem whileM (condition : Parser Bool) [Steady condition] :
    Collects [] (Parser.whileM condition item) := by
  have go (n : Nat) : Collects [] (Parser.whileM.go condition item n) := by
    induction n with
    | zero => exact .pure (by simp)
    | succ n ih =>
      refine .behind fun _ => .ite ?_ (.pure (by simp))
      exact .bind h fun a => .bind ih fun as => .pure (by simp)
  exact fun s => go _ s

theorem separated (separator : String) : Collects [] (Parser.separated separator item) :=
  .bind h fun _ => .bind (h.whileM _) fun _ => .pure (by simp)

theorem unless? (stop : String) : Collects [] (Parser.unless? stop item) :=
  .behind fun _ => .ite (.pure (by simp)) (.bind h fun _ => .pure (by simp))

theorem when? (start : String) : Collects [] (Parser.when? start item) :=
  .behind fun _ => .ite (.bind h fun _ => .pure (by simp)) (.pure (by simp))

theorem after? (start : String) : Collects [] (Parser.after? start item) :=
  .behind fun _ => .ite (.bind h fun _ => .pure (by simp)) (.pure (by simp))

end

end Collects

-- ---------------------------------------------------------------------------
-- What rules put together
-- ---------------------------------------------------------------------------

instance : Sited MethodRest := ⟨fun rest => sites rest.body⟩

@[simp, grind =] theorem sites_methodRest (parameters : List (Parameter × Code)) (dimensions : Nat)
    (body : List Code) : sites (MethodRest.mk parameters dimensions body) = sites body := rfl

instance : Sited CompilationUnit := ⟨fun unit => sites unit.types⟩

@[simp, grind =] theorem sites_unit (package : String) (types : List TypeDeclaration) :
    sites (CompilationUnit.mk package types) = sites types := rfl

theorem count_withSelectors_le (target : Code) (selectors : List Code) (x : Position) :
    (sites (target.withSelectors selectors)).count x ≤
      (sites target).count x + (sites selectors).count x := by
  unfold Code.withSelectors Code.withSelectors.withoutSelectors
  cases target <;> cases selectors <;> grind

theorem count_cutAt (level : List String) (first : Code) (chain : List (String × Code))
    (x : Position) :
    (sites (cutAt level first chain)).count x = (sites first).count x + (sites chain).count x := by
  induction chain generalizing first with
  | nil => simp [cutAt]
  | cons entry chain ih =>
    obtain ⟨op, operand⟩ := entry
    have := ih operand
    rw [cutAt]
    split
    all_goals grind

theorem count_foldl_le [Sited α] {f : Code → α → Code} {x : Position}
    (hf : ∀ c a, (sites (f c a)).count x ≤ (sites c).count x + (sites a).count x) (c : Code)
    (as : List α) :
    (sites (as.foldl f c)).count x ≤ (sites c).count x + (sites as).count x := by
  induction as generalizing c with
  | nil => simp
  | cons a as ih =>
    have := hf c a
    have := ih (f c a)
    rw [List.foldl_cons, sites_cons, List.count_append]
    omega

theorem count_assemble_le (levels : List (List String)) (first : Code)
    (chain : List (String × Code)) (x : Position) :
    (sites (assemble levels first chain)).count x ≤
      (sites first).count x + (sites chain).count x := by
  induction levels generalizing first chain with
  | nil => exact Nat.le_add_right _ _
  | cons level tighter ih =>
    have hcut := count_cutAt level first chain x
    rw [assemble]
    generalize cutAt level first chain = cut at hcut ⊢
    obtain ⟨⟨head, headChain⟩, groups⟩ := cut
    have hhead := ih head headChain
    refine Nat.le_trans (count_foldl_le ?_ _ _) ?_
    · rintro left ⟨op, operand, rest⟩
      have := ih operand rest
      grind
    · grind

theorem sites_declareAll (type : TypeRef) (annotations : List Code)
    (declarators : List (Declarator × List Code)) :
    sites (declareAll type annotations declarators) = sites annotations ++ sites declarators := by
  simp [declareAll]

@[simp, grind =] theorem sites_methodOf (m : Modified) (name : String) (result : Option TypeRef)
    (rest : MethodRest) : sites (method m name result rest) = sites rest :=
  sites_method ..

@[simp, grind =] theorem sites_fieldOf (m : Modified) (isConstant : Bool) (type : TypeRef)
    (declarators : List (Declarator × List Code)) :
    sites (field m isConstant type declarators) = sites declarators := by
  simp [field]

-- ---------------------------------------------------------------------------
-- The rules, given those they refer to
-- ---------------------------------------------------------------------------

/-- The rules that other rules refer to collect the sites of what they return. -/
class CollectingRules (g : Grammar) : Prop where
  steady : SteadyRules g
  elementValue : Collects [] g.elementValue
  expression : Collects [] g.expression
  conditional : Collects [] g.conditional
  operand : Collects [] g.operand
  initializer : Collects [] g.initializer
  block : Collects [] g.block
  statement : Collects [] g.statement
  classBody : Collects [] g.classBody
  typeDeclaration : Collects [] g.typeDeclaration

attribute [instance] CollectingRules.steady

theorem bodyItems_collects [Sited α] {item : Parser (Option α)} (h : Collects [] item) :
    Collects [] (bodyItems item) :=
  .bind (h.whileM _) fun _ => .pure (by grind)

theorem body_collects [Sited α] {item : Parser (Option α)} (h : Collects [] item) :
    Collects [] (body item) :=
  .behind fun _ => .bind (bodyItems_collects h) fun _ => .behind fun _ => .pure (by simp)

theorem nestedType_collects {typeRest : Parser TypeDeclaration} (h : Collects [] typeRest)
    (m : Modified) : Collects [] (nestedType m typeRest) := by
  refine .behind fun _ => .behind fun _ => .ite ?_ (.pure (by simp))
  exact .bind h fun _ => .pure (by simp)

variable {g : Grammar} [hg : CollectingRules g]

theorem catchClause_collects {block : Parser (List Code)} (hblock : Collects [] block) :
    Collects [] (catchClause g block) := by
  refine .behind fun _ => .behind fun _ => .behind fun _ => .behind fun _ => .behind fun _ => ?_
  exact .bind hblock fun _ => .pure (by simp)

-- types, modifiers and annotations

theorem annotationUse_collects : Collects [] (annotationUse g) := by
  have closed (values : List Code) : Collects ([] ++ sites values) (do
      accept [")"]
      return Code.compound values) :=
    .behind fun _ => .pure (by simp)
  have named : Collects [] (do
      discard identifier
      accept ["="]
      g.elementValue) :=
    .behind fun _ => .behind fun _ => hg.elementValue
  refine .behind fun _ => .behind fun _ => .behind fun _ => .ite (.pure (by simp)) ?_
  refine .behind fun _ => .behind fun _ => .ite (closed []) (.ite ?_ ?_)
  · exact .bind (named.separated ",") closed
  · exact .bind hg.elementValue fun value => by simpa using closed [value]

theorem elementValue_collects : Collects [] (elementValue g) := by
  refine .behind fun _ => .ite annotationUse_collects (.behind fun _ => .ite ?_ hg.conditional)
  refine .behind fun _ => .behind fun _ => .ite (.pure (by simp)) ?_
  refine .bind hg.elementValue fun _ => .bind (hg.elementValue.whileM _) fun _ => ?_
  exact .behind fun _ => .behind fun _ => .pure (by simp)

theorem variableModifiers_collects : Collects [] (variableModifiers g) := by
  refine .bind (.whileM (.behind fun _ => .ite (.pure (by simp)) ?_) _) fun _ => .pure (by grind)
  exact .bind annotationUse_collects fun _ => .pure (by simp)

-- expressions

theorem arguments_collects : Collects [] (arguments g) := by
  refine .behind fun _ => .behind fun _ => .ite (.pure (by simp)) ?_
  exact .bind (hg.expression.separated ",") fun _ => .behind fun _ => .pure (by simp)

theorem parenthesized_collects : Collects [] (parenthesized g) :=
  .behind fun _ => .bind hg.expression fun _ => .behind fun _ => .pure (by simp)

theorem arrayInitializer_collects : Collects [] (arrayInitializer g) := by
  have element : Collects [] (do
      let value ← g.initializer
      if !(← would ["\x7d"]) then accept [","]
      return value) := by
    refine .bind hg.initializer fun _ => .behind fun _ => .ite ?_ (.pure (by simp))
    exact .behind fun _ => .pure (by simp)
  refine .behind fun _ => .behind fun _ => .ite (.behind fun _ => .pure (by simp)) ?_
  refine .behind fun _ => .ite (.pure (by simp)) ?_
  exact .bind element fun _ => .bind (element.whileM _) fun _ => .pure (by simp)

theorem initializer_collects : Collects [] (initializer g) :=
  .behind fun _ => .ite arrayInitializer_collects hg.expression

theorem formalParameter_collects : Collects [] (formalParameter g) := by
  refine .bind variableModifiers_collects fun _ => .behind fun _ => .behind fun _ => ?_
  exact .behind fun _ => .behind fun _ => .pure (by simp)

theorem formalParameters_go_collects (last : Parameter × Code) (n : Nat) :
    Collects (sites last) (formalParameters.go g last n) := by
  induction n generalizing last with
  | zero => exact .pure (by simp)
  | succ n ih =>
    refine .ite (.pure (by simp)) (.behind fun _ => .ite ?_ (.pure (by simp)))
    refine .bind formalParameter_collects fun following => ?_
    exact .bindHeld (ih following) fun _ => .pure (by simp)

theorem formalParameters_collects : Collects [] (formalParameters g) := by
  refine .behind fun _ => .behind fun _ => .ite (.pure (by simp)) ?_
  refine .bind formalParameter_collects fun first => .behind fun _ => ?_
  exact .bindHeld (formalParameters_go_collects first _) fun _ => .behind fun _ => .pure (by simp)

theorem lambdaBody_collects : Collects [] (lambdaBody g) :=
  .behind fun _ => .behind fun _ =>
    .ite hg.block (.bind hg.expression fun _ => .pure (by simp))

theorem lambda_collects : Collects [] (lambda g) := by
  have body (parameters : List Code) : Collects ([] ++ sites parameters) (do
      return Code.compound (parameters ++ (← lambdaBody g))) :=
    .bind lambdaBody_collects fun _ => .pure (by simp)
  refine .behind fun _ => .ite ?_ ?_
  · exact .behind fun _ => .behind fun _ => .behind fun _ => body []
  · refine .bind formalParameters_collects fun parameters => ?_
    simpa using body (parameters.map Prod.snd)

theorem objectRest_collects : Collects [] (objectRest g) :=
  .bind arguments_collects fun _ => .bind (hg.classBody.when? _) fun _ => .pure (by simp)

theorem innerCreator_collects : Collects [] (innerCreator g) := by
  refine .behind fun _ => .ite (.behind fun _ => ?_) ?_
  all_goals
    refine .behind fun _ => .behind fun _ => .ite (.behind fun _ => .ite (.behind fun _ => ?_) ?_) ?_
  all_goals exact .bind objectRest_collects fun _ => .pure (by simp)

theorem arrayRest_collects (type : TypeRef) : Collects [] (arrayRest g type) := by
  have size : Collects [] (do
      accept ["["]
      let size ← g.expression
      accept ["]"]
      return size) :=
    .behind fun _ => .bind hg.expression fun _ => .behind fun _ => .pure (by simp)
  refine .behind fun _ => .ite ?_ ?_
  · exact .behind fun _ => .bind arrayInitializer_collects fun _ => .pure (by simp)
  · exact .bind (size.whileM _) fun _ => .behind fun _ => .pure (by simp)

theorem creator_collects : Collects [] (creator g) := by
  refine .behind fun _ => .ite (.behind fun _ => arrayRest_collects _) ?_
  refine .behind fun _ => .behind fun _ => .behind fun _ => .ite ?_ ?_
  · exact .ite (.behind fun _ => arrayRest_collects _) (arrayRest_collects _)
  · exact .bind objectRest_collects fun _ => .pure (by simp)

theorem superSuffix_collects : Collects [] (superSuffix g) := by
  have member : Collects [] (do
      discard identifier
      return Code.primary ((← when? "(" (arguments g)).getD [])) :=
    .behind fun _ => .bind (arguments_collects.when? _) fun _ => .pure (by simp)
  refine .behind fun _ => .ite (.behind fun _ => .ite (.behind fun _ => member) member) ?_
  exact .bind arguments_collects fun _ => .pure (by simp)

theorem genericCall_collects : Collects [] (genericCall g) := by
  refine .behind fun _ => .ite superSuffix_collects (.named fun _ _ => ?_)
  exact .bind arguments_collects fun _ => .pure (by simp)

theorem nameSuffix_collects (site : Position) (names : List String) :
    Collects [site] (nameSuffix g site names) := by
  refine .behind fun _ => .ite (.behind fun _ => .behind fun _ => .pure (by simp)) ?_
  refine .behind fun _ => .ite (.bind arguments_collects fun _ => .pure (by simp)) ?_
  refine .behind fun _ => .ite (.pure (by simp)) (.behind fun _ => .ite (.pure (by simp)) ?_)
  refine .behind fun _ => .ite ?generic (.behind fun _ => .ite innerCreator_collects.weaken ?_)
  case generic =>
    refine .behind fun _ => .behind fun _ => .bind genericCall_collects fun called => ?_
    cases called with
    | call => exact .pure (by grind)
    | _ => exact .pure (by grind)
  · refine .behind fun _ => .ite (.behind fun _ => ?_) (.pure (by simp))
    exact .bind arguments_collects fun _ => .pure (by grind)

theorem primary_collects : Collects [] (primary g) := by
  refine .behind fun _ => .ite (.behind fun _ => .pure (by simp)) ?_
  refine .behind fun _ => .ite parenthesized_collects (.behind fun _ => .ite ?constructor ?_)
  case constructor =>
    refine .bind (arguments_collects.when? _) fun values => ?_
    cases values <;> exact .pure (by simp)
  refine .behind fun _ => .ite (.behind fun _ => .pure (by simp)) ?_
  refine .behind fun _ => .ite superSuffix_collects ?_
  refine .behind fun _ => .ite creator_collects (.behind fun _ => .ite ?generic ?_)
  case generic =>
    refine .behind fun _ => .behind fun _ => .ite ?_ genericCall_collects
    exact .bind arguments_collects fun _ => .pure (by simp)
  refine .behind fun _ => .ite ?name (.behind fun _ => .ite ?_ ?_)
  case name =>
    exact .named fun site first => .behind fun rest => nameSuffix_collects site (first :: rest)
  · exact .behind fun _ => .behind fun _ => .behind fun _ => .pure (by simp)
  · exact .behind fun _ => .ite (.behind fun _ => .pure (by simp)) (.illegal _)

theorem selector_collects : Collects [] (selector g) := by
  refine .behind fun _ => .ite ?index (.behind fun _ => .ite ?_ (.illegal _))
  case index => exact .bind hg.expression fun _ => .behind fun _ => .pure (by simp)
  refine .behind fun _ => .ite ?called (.behind fun _ => .ite (.behind fun _ => .pure (by simp)) ?_)
  case called =>
    refine .named fun site member => .bind (arguments_collects.when? _) fun values => ?_
    cases values <;> exact .pure (by simp)
  refine .behind fun _ => .ite (.behind fun _ => genericCall_collects) ?_
  refine .behind fun _ => .ite (.pure (by simp)) (.behind fun _ => .ite superSuffix_collects ?_)
  exact .behind fun _ => .ite innerCreator_collects (.illegal _)

theorem selected_collects : Collects [] (selected g) := by
  refine .bind primary_collects fun target => ?_
  refine .bind (selector_collects.whileM _) fun selectors => .behind fun _ => .pure fun x => ?_
  have := count_withSelectors_le target selectors x
  grind

theorem cast_collects : Collects [] (cast g) :=
  .behind fun _ => .behind fun _ => .behind fun _ => .bind hg.operand fun _ => .pure (by simp)

theorem operand_collects : Collects [] (operand g) := by
  refine .behind fun _ => .behind fun _ => .ite ?_ selected_collects
  exact .speculate lambda_collects (.speculate cast_collects selected_collects)

theorem operation_collects : Collects [] (operation g) := by
  refine .bind operand_collects fun first => .bind (.whileM ?_ _) fun chain => .pure fun x => ?_
  · refine .behind fun _ => .ite (.behind fun _ => .pure (by simp)) (.behind fun _ => ?_)
    exact .bind operand_collects fun _ => .pure (by simp)
  · have := count_assemble_le precedence first chain x
    grind

theorem methodReference_collects : Collects [] (methodReference g) := by
  have referred : Collects [] (do
      if ← tryAccept ["new"] then return .compound [] else g.expression) :=
    .behind fun _ => .ite (.pure (by simp)) hg.expression
  exact .behind fun _ => .ite (.behind fun _ => referred) referred

theorem conditional_collects : Collects [] (conditional g) := by
  refine .bind operation_collects fun first => .behind fun _ => .ite ?_ ?_
  · refine .bind hg.expression fun _ => .behind fun _ => ?_
    exact .bind hg.conditional fun _ => .pure (by simp)
  · refine .behind fun _ => .ite (.bind lambdaBody_collects fun _ => .pure (by simp)) ?_
    refine .behind fun _ => .ite ?_ (.pure (by simp))
    exact .bind methodReference_collects fun _ => .pure (by simp)

theorem expression_collects : Collects [] (expression g) := by
  refine .bind conditional_collects fun _ => .behind fun _ => .ite ?_ (.pure (by simp))
  exact .behind fun _ => .bind hg.expression fun _ => .pure (by simp)

-- statements

theorem declarator_collects : Collects [] (declarator g) :=
  .behind fun _ => .behind fun _ => .bind (initializer_collects.after? _) fun _ =>
    .pure (by simp)

theorem localVariables_collects : Collects [] (localVariables g) := by
  refine .bind variableModifiers_collects fun _ => .behind fun _ => ?_
  refine .bind (declarator_collects.separated _) fun _ => .behind fun _ => .pure ?_
  simp [sites_declareAll]

theorem blockStatement_collects {statement : Parser Code} [Steady statement]
    (hstatement : Collects [] statement) : Collects [] (blockStatement g statement) := by
  have ahead : Steady (fun s => .ok (lookPast false s.rest.length s.rest) s : Parser Lookahead) :=
    ⟨.refl⟩
  have type : Collects [] (do return Code.localType (← g.typeDeclaration)) :=
    .bind hg.typeDeclaration fun _ => .pure (by simp)
  refine .behind fun _ => .behind fun _ => .ite hstatement (.behind fun found => ?_)
  cases found with
  | typeModifier => exact type
  | reached found token =>
    refine .ite type (.ite localVariables_collects (.ite ?_ hstatement))
    exact .speculate localVariables_collects hstatement

theorem blockOf_collects {statement : Parser Code} [Steady statement]
    (hstatement : Collects [] statement) : Collects [] (blockOf g statement) :=
  .behind fun _ => .bind (.whileM (blockStatement_collects hstatement) _) fun _ =>
    .behind fun _ => .pure (by simp)

theorem switchLabels_collects : Collects [] (switchLabels g) := by
  have label : Collects [] (do
      let word := (← next).text
      let value ←
        if word != "case" then pure []
        else if ← switchLabels.tryAcceptName then pure []
        else pure [← g.expression]
      accept [":"]
      return value) := by
    have closed (values : List Code) : Collects ([] ++ sites values) (do
        accept [":"]
        return values) :=
      .behind fun _ => .pure (by simp)
    refine .behind fun _ => .behind fun _ => .ite (closed []) (.ite (closed []) ?_)
    exact .bind hg.expression fun value => by simpa using closed [value]
  exact .bind label fun _ => .bind (label.whileM _) fun _ => .pure (by simp)

theorem switchGroup_collects {statement : Parser Code} [Steady statement]
    (hstatement : Collects [] statement) : Collects [] (switchGroup g statement) :=
  .bind switchLabels_collects fun _ =>
    .bind (.whileM (blockStatement_collects hstatement) _) fun _ => .pure (by simp)

theorem loopRest_collects : Collects [] (loopRest g) := by
  refine .bind (hg.expression.unless? _) fun _ => .behind fun _ => ?_
  exact .bind ((hg.expression.separated _).unless? _) fun _ => .pure (by simp)

theorem variableControl_collects : Collects [] (variableControl g) := by
  have declared (name : String) : Collects [] (do
      let value ← after? "=" (initializer g)
      let more ← whileM (tryAccept [","]) (declarator g)
      return ((⟨name, 0⟩ : Declarator), value.toList) :: more) :=
    .bind (initializer_collects.after? _) fun _ =>
      .bind (declarator_collects.whileM _) fun _ => .pure (by simp)
  refine .bind variableModifiers_collects fun _ => .behind fun _ => .behind fun name => ?_
  refine .behind fun _ => .behind fun _ => .ite ?_ ?_
  · exact .bind hg.expression fun _ => .pure (by simp [sites_declareAll])
  · refine .bind ((declared name).unless? _) fun declarators => .behind fun _ => ?_
    refine .bind loopRest_collects fun _ => .pure ?_
    cases declarators <;> simp [sites_declareAll]

theorem plainControl_collects : Collects [] (plainControl g) :=
  .bind ((hg.expression.separated _).unless? _) fun _ => .behind fun _ =>
    .bind loopRest_collects fun _ => .pure (by simp)

theorem resource_collects : Collects [] (resource g) := by
  refine .bind variableModifiers_collects fun _ => .behind fun _ => .behind fun _ => ?_
  refine .behind fun _ => .behind fun _ => .behind fun _ => ?_
  exact .bind hg.expression fun _ => .pure (by simp)

theorem resources_collects : Collects [] (resources g) := by
  have item : Collects [] (do
      let r ← resource g
      if !(← would [")"]) then accept [";"]
      return r) := by
    refine .bind resource_collects fun _ => .behind fun _ => .ite ?_ (.pure (by simp))
    exact .behind fun _ => .pure (by simp)
  exact .behind fun _ => .bind item fun _ => .bind (item.whileM _) fun _ => .pure (by simp)

theorem tryRest_collects {block : Parser (List Code)} [Steady block] (hblock : Collects [] block) :
    Collects [] (tryRest g block) := by
  have rest (opened : List Code) : Collects ([] ++ sites opened) (do
      let hasResources := !opened.isEmpty
      let body ← block
      let catches ← whileM (would ["catch"]) (catchClause g block)
      let final ← after? "finally" block
      if !hasResources && catches.isEmpty && final.isNone then
        illegal "Expected catch/finally block"
      return Code.compound (opened ++ body ++ catches ++ final.getD [])) := by
    refine .bind hblock fun _ => .bind ((catchClause_collects hblock).whileM _) fun _ => ?_
    refine .bind (hblock.after? _) fun _ => .ite (.behind fun _ => ?_) ?_
    all_goals exact .pure (by simp)
  exact .behind fun _ => .ite (rest []) (.bind resources_collects rest)

theorem statement_collects : Collects [] (statement g) := by
  refine .behind fun _ => .ite (.bind hg.block fun _ => .pure (by simp)) ?_
  refine .behind fun _ => .ite (.pure (by simp)) ?_
  refine .behind fun _ => .ite (.behind fun _ => hg.statement) (.behind fun _ => .ite ?if_ ?_)
  case if_ =>
    refine .bind parenthesized_collects fun _ => .bind hg.statement fun _ => ?_
    exact .bind (hg.statement.after? _) fun _ => .pure (by simp)
  refine .behind fun _ => .ite ?assert (.behind fun _ => .ite ?switch (.behind fun _ => .ite ?while_ ?_))
  case assert =>
    refine .bind hg.expression fun _ => .bind (hg.expression.after? _) fun _ => ?_
    exact .behind fun _ => .pure (by simp)
  case switch =>
    refine .bind parenthesized_collects fun _ => .behind fun _ => ?_
    refine .bind (.whileM (switchGroup_collects hg.statement) _) fun _ => ?_
    exact .behind fun _ => .pure (by simp)
  case while_ =>
    refine .bind parenthesized_collects fun _ => .bind hg.statement fun _ => ?_
    exact .pure (by simp)
  refine .behind fun _ => .ite ?do_ (.behind fun _ => .ite ?for_ ?_)
  case do_ =>
    refine .bind hg.statement fun _ => .behind fun _ => ?_
    refine .bind parenthesized_collects fun _ => .behind fun _ => .pure (by grind)
  case for_ =>
    refine .behind fun _ => ?_
    refine .bind (.speculate variableControl_collects plainControl_collects) fun _ => ?_
    exact .behind fun _ => .bind hg.statement fun _ => .pure (by simp)
  refine .behind fun _ => .ite ?jump (.behind fun _ => .ite ?return_ (.behind fun _ => .ite ?throw ?_))
  case jump => exact .behind fun _ => .behind fun _ => .behind fun _ => .pure (by simp)
  case return_ => exact .bind (hg.expression.unless? _) fun _ => .behind fun _ => .pure (by simp)
  case throw => exact .bind hg.expression fun _ => .behind fun _ => .pure (by simp)
  refine .behind fun _ => .ite ?lock (.behind fun _ => .ite (tryRest_collects hg.block) ?_)
  case lock =>
    exact .bind parenthesized_collects fun _ => .bind hg.block fun _ => .pure (by simp)
  exact .bind hg.expression fun _ => .behind fun _ => .pure (by simp)

theorem block_collects : Collects [] (block g) :=
  blockOf_collects statement_collects

-- declarations

theorem methodRest_collects (hasBrackets : Bool) : Collects [] (methodRest g hasBrackets) := by
  have rest (parameters : List (Parameter × Code)) (extra : Nat) : Collects [] (do
      discard <| after? "throws" (separated "," qualifiedName)
      if ← would ["\x7b"] then return (⟨parameters, extra, ← block g⟩ : MethodRest)
      else
        accept [";"]
        return ⟨parameters, extra, []⟩) := by
    refine .behind fun _ => .behind fun _ => .ite ?_ (.behind fun _ => .pure (by simp))
    exact .bind block_collects fun _ => .pure (by simp)
  exact .behind fun parameters => .ite (.behind fun extra => rest parameters extra) (rest parameters 0)

theorem method_collects (hasBrackets : Bool) (m : Modified) (name : String)
    (result : MethodRest → Option TypeRef) : Collects [] (do
      let rest ← methodRest g hasBrackets
      return method m name (result rest) rest) :=
  .bind (methodRest_collects hasBrackets) fun _ => .pure (by simp)

theorem constructorRest_collects (m : Modified) (name : String) :
    Collects [] (constructorRest g m name) :=
  .behind fun _ => .behind fun _ => .bind block_collects fun _ => .pure (by simp)

theorem fieldRest_collects (name : String) : Collects [] (fieldRest g name) := by
  refine .behind fun _ => .bind (initializer_collects.after? _) fun _ => ?_
  exact .bind (declarator_collects.whileM _) fun _ => .pure (by simp)

theorem constantRest_collects (name : String) : Collects [] (constantRest g name) := by
  have valued : Collects [] (do
      let n ← dimensions
      accept ["="]
      return (n, ← initializer g)) :=
    .behind fun _ => .behind fun _ => .bind initializer_collects fun _ => .pure (by simp)
  refine .bind valued fun _ => .bind (.whileM (.behind fun _ => ?_) _) fun _ => .pure (by simp)
  exact .bind valued fun _ => .pure (by simp)

theorem enumConstant_collects : Collects [] (enumConstant g) := by
  have constant (marks : List Code) : Collects [] (do
      let name ← identifier
      let values ← when? "(" (arguments g)
      return Declaration.enumConstant name marks (values.getD []) (← when? "\x7b" g.classBody)) :=
    .behind fun _ => .bind (arguments_collects.when? _) fun _ =>
      .bind (hg.classBody.when? _) fun _ => .pure (by simp)
  exact .behind fun _ => .ite (.behind constant) (constant [])

theorem constantsFrom_collects (n : Nat) : Collects [] (enumBody.constantsFrom g n) := by
  induction n with
  | zero => exact .pure (by simp)
  | succ n ih =>
    refine .behind fun _ => .behind fun _ => .ite (.pure (by simp)) ?_
    refine .bind enumConstant_collects fun _ => .behind fun _ => .ite ?_ (.pure (by simp))
    exact .bind ih fun _ => .pure (by simp)

section

variable {typeRest : Parser TypeDeclaration} (htype : Collects [] typeRest)

include htype

theorem classMember_collects (m : Modified) : Collects [] (classMember g typeRest m) := by
  refine .behind fun _ => .ite (.behind fun _ => method_collects _ _ _ _) ?_
  refine .behind fun _ => .ite ?generic (.bind (nestedType_collects htype m) fun nested => ?_)
  case generic =>
    refine .behind fun _ => .behind fun _ => .ite ?_ (.behind fun _ => .ite ?_ ?_)
    · exact .behind fun _ => constructorRest_collects m _
    · exact .behind fun _ => method_collects _ _ _ _
    · exact .behind fun _ => .behind fun _ => method_collects _ _ _ _
  cases nested with
  | some => exact .pure (by simp)
  | none =>
    refine .behind fun _ => .ite (.behind fun _ => constructorRest_collects m _) ?_
    refine .behind fun _ => .behind fun name => .behind fun _ => .ite ?_ ?_
    · exact method_collects _ _ _ _
    · exact .bind (fieldRest_collects name) fun _ => .behind fun _ => .pure (by simp)

theorem interfaceMember_collects (m : Modified) : Collects [] (interfaceMember g typeRest m) := by
  refine .bind (nestedType_collects htype m) fun nested => ?_
  cases nested with
  | some => exact .pure (by simp)
  | none =>
    refine .behind fun _ => .ite ?generic (.behind fun _ => .ite ?_ ?_)
    case generic =>
      refine .behind fun _ => .behind fun _ => .ite ?_ ?_
      all_goals exact .behind fun _ => .behind fun _ => method_collects _ _ _ _
    · exact .behind fun _ => method_collects _ _ _ _
    · refine .behind fun _ => .behind fun name => .behind fun _ => .ite ?_ ?_
      · exact method_collects _ _ _ _
      · exact .bind (constantRest_collects name) fun _ => .behind fun _ => .pure (by simp)

theorem annotationItem_collects : Collects [] (annotationItem g typeRest) := by
  refine .behind fun _ => .bind (nestedType_collects htype _) fun nested => ?_
  cases nested with
  | some => exact .pure (by simp)
  | none =>
    refine .behind fun _ => .behind fun name => .behind fun _ => .ite ?_ ?_
    · refine .behind fun _ => .behind fun _ => .behind fun _ => .behind fun _ => .pure (by simp)
    · exact .bind (constantRest_collects name) fun _ => .behind fun _ => .pure (by simp)

theorem classItem_collects : Collects [] (classItem g typeRest) := by
  refine .behind fun _ => .ite (.pure (by simp)) (.behind fun _ => .behind fun _ => .ite ?_ ?_)
  · refine .behind fun _ => .bind block_collects fun statements => ?_
    cases statements <;> exact .pure (by simp)
  · exact .behind fun _ => .bind (classMember_collects htype _) fun _ => .pure (by simp)

theorem interfaceItem_collects : Collects [] (interfaceItem g typeRest) := by
  refine .behind fun _ => .ite (.pure (by simp)) (.behind fun _ => ?_)
  exact .bind (interfaceMember_collects htype _) fun _ => .pure (by simp)

theorem enumBody_collects : Collects [] (enumBody g typeRest) := by
  have members (constants : List Declaration) : Collects ([] ++ sites constants) (do
      let members ← if ← tryAccept [";"] then bodyItems (classItem g typeRest) else pure []
      accept ["\x7d"]
      return (constants, members)) := by
    refine .behind fun _ => .ite ?_ (.bind (.pure (by simp)) fun _ => .behind fun _ => .pure (by simp))
    exact .bind (bodyItems_collects (classItem_collects htype)) fun _ =>
      .behind fun _ => .pure (by simp)
  refine .behind fun _ => .behind fun _ => .ite (members []) (.behind fun _ => ?_)
  exact .bind (constantsFrom_collects _) members

theorem typeRestOf_collects : Collects [] (typeRestOf g typeRest) := by
  refine .behind fun _ => .behind fun _ => .ite ?class_ (.behind fun _ => .ite ?enum
    (.behind fun _ => .ite ?interface (.behind fun _ => .ite ?annotationType (.illegal _))))
  case class_ =>
    refine .behind fun _ => .behind fun _ => .ite (.behind fun _ => ?_) ?_
    all_goals
      refine .behind fun _ => .behind fun _ => ?_
      exact .bind (body_collects (classItem_collects htype)) fun _ => .pure (by simp)
  case enum =>
    refine .behind fun _ => .behind fun _ => ?_
    exact .bind (enumBody_collects htype) fun _ => .pure (by simp)
  case interface =>
    refine .behind fun _ => .behind fun _ => .ite (.behind fun _ => ?_) ?_
    all_goals
      refine .behind fun _ => ?_
      exact .bind (body_collects (interfaceItem_collects htype)) fun _ => .pure (by simp)
  case annotationType =>
    refine .behind fun _ => .behind fun _ => ?_
    exact .bind (body_collects (annotationItem_collects htype)) fun _ => .pure (by simp)

end

theorem typeDeclaration_collects : Collects [] (typeDeclaration g) :=
  .behind fun _ => .bind (typeRestOf_collects hg.typeDeclaration) fun _ => .pure (by simp)

theorem classBody_collects : Collects [] (classBody g) :=
  body_collects (classItem_collects hg.typeDeclaration)

-- ---------------------------------------------------------------------------
-- Units
-- ---------------------------------------------------------------------------

instance : CollectingRules (grammar depth) := by
  induction depth with
  | zero => constructor <;> first | infer_instance | exact .throw _
  | succ depth ih =>
    exact
      { steady := inferInstance
        elementValue := elementValue_collects
        expression := expression_collects
        conditional := conditional_collects
        operand := operand_collects
        initializer := initializer_collects
        block := block_collects
        statement := statement_collects
        classBody := classBody_collects
        typeDeclaration := typeDeclaration_collects }

theorem unitItem_collects : Collects [] (unitItem g) := by
  refine .behind fun _ => .ite (.pure (by simp)) fun s a t h => ?_
  split at h
  · rename_i declaration _ hd
    cases h
    exact hg.typeDeclaration _ _ _ hd
  · cases h
  · cases h

theorem unit_collects : Collects [] (unit g) := by
  refine .behind fun _ => .behind fun _ => .bind (unitItem_collects.whileM _) fun _ => ?_
  exact .pure (by grind)

end Parser

namespace CompilationUnit

/-- No two calls of a unit have one site, if no two of the tokens it was read from have one place. -/
theorem nodup_sites (htokens : (tokens.map Token.position).Nodup)
    (h : ofTokens tokens = .ok unit) : (sites unit).Nodup := by
  unfold ofTokens at h
  split at h
  · rename_i hunit
    cases h
    rw [List.nodup_iff_count_le_one] at htokens ⊢
    intro x
    have hcount := Parser.unit_collects _ _ _ hunit x
    have hx : (Cursor.ahead ⟨tokens, tokens⟩).count x ≤ 1 := htokens x
    rw [List.count_nil] at hcount
    omega
  · cases h

end CompilationUnit

end CallerFirst.Java
