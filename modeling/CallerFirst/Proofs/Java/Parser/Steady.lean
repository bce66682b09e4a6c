import CallerFirst.Java.Parser.Unit
import Mathlib.Tactic.Common

/-!
# Rules stay on the tokens they were given

Wherever a rule of the grammar stops, and whether it fails or not, the tokens ahead are the last of
those that were ahead, and so are the tokens to go back to, if they are others than before. A rule is
steady because its parts are, so steadiness is a class, with instances from single steps up to the
rules of the grammar.
-/

namespace CallerFirst.Java

namespace Cursor

structure Over (Q : Token → Prop) (s : Cursor) : Prop where
  rest : ∀ t ∈ s.rest, Q t
  mark : ∀ t ∈ s.mark, Q t

/-- A cursor that was moved on from another. A mark that was moved is not in front of that one. -/
structure Behind (t s : Cursor) : Prop where
  rest : t.rest <:+ s.rest
  mark : t.mark = s.mark ∨ t.mark <:+ s.rest

theorem Behind.refl (s : Cursor) : s.Behind s :=
  ⟨List.suffix_refl _, .inl rfl⟩

theorem Behind.trans {s t u : Cursor} (h : u.Behind t) (h' : t.Behind s) : u.Behind s := by
  refine ⟨h.rest.trans h'.rest, ?_⟩
  rcases h.mark with heq | hsuffix
  · exact heq ▸ h'.mark
  · exact .inr (hsuffix.trans h'.rest)

theorem Behind.mark_suffix {s t : Cursor} (h : t.Behind { s with mark := s.rest }) :
    t.mark <:+ s.rest :=
  h.mark.elim (fun heq => heq ▸ List.suffix_refl _) id

theorem Over.of_behind {Q : Token → Prop} {s t : Cursor} (hs : s.Over Q) (h : t.Behind s) :
    t.Over Q := by
  refine ⟨fun a ha => hs.rest a (h.rest.subset ha), fun a ha => ?_⟩
  rcases h.mark with heq | hsuffix
  · exact hs.mark a (heq ▸ ha)
  · exact hs.rest a (hsuffix.subset ha)

end Cursor

namespace Parser

def reached : EStateM.Result ParseFault Cursor α → Cursor
  | .ok _ t | .error _ t => t

class Steady (p : Parser α) : Prop where
  behind : ∀ s, (reached (p s)).Behind s

theorem Steady.keeps {p : Parser α} [h : Steady p] {Q : Token → Prop} {s : Cursor} (hs : s.Over Q) :
    (reached (p s)).Over Q :=
  hs.of_behind (h.behind s)

-- ---------------------------------------------------------------------------
-- Single steps
-- ---------------------------------------------------------------------------

instance : Steady (pure a : Parser α) := ⟨.refl⟩
instance : Steady (throw fault : Parser α) := ⟨.refl⟩
instance : Steady (illegal description : Parser α) := ⟨.refl⟩
instance : Steady look := ⟨.refl⟩
instance : Steady lookText := ⟨.refl⟩
instance : Steady lookKind := ⟨.refl⟩
instance : Steady here := ⟨.refl⟩
instance : Steady (would ps) := ⟨.refl⟩
instance : Steady wouldAnnotate := ⟨.refl⟩
instance : Steady wouldAnnotationDeclaration := ⟨.refl⟩

instance : Steady next where
  behind s := by
    unfold next
    split
    · exact .refl s
    · rename_i t rest heq
      exact ⟨heq ▸ List.suffix_cons t rest, .inl rfl⟩

instance : Steady (tryAccept ps) where
  behind s := by
    unfold tryAccept
    split
    · exact ⟨List.drop_suffix _ _, .inl rfl⟩
    · exact .refl s

-- ---------------------------------------------------------------------------
-- Steps put together
-- ---------------------------------------------------------------------------

section

variable {x y : Parser α} {f : α → Parser β}

instance [hx : Steady x] [hf : ∀ a, Steady (f a)] : Steady (x >>= f) where
  behind s := by
    have hbehind := hx.behind s
    show (reached (EStateM.bind x f s)).Behind s
    unfold EStateM.bind
    cases h : x s with
    | ok a t =>
      rw [h] at hbehind
      exact ((hf a).behind t).trans hbehind
    | error fault t =>
      rw [h] at hbehind
      exact hbehind

instance {c : Prop} [Decidable c] [hx : Steady x] [hy : Steady y] :
    Steady (if c then x else y) := by
  split
  · exact hx
  · exact hy

theorem bind_of [Steady x] (h : ∀ a, Steady (f a)) : Steady (x >>= f) :=
  inferInstance

theorem ite_of_left {c : Prop} [Decidable c] [Steady y] (h : Steady x) :
    Steady (if c then x else y) :=
  inferInstance

theorem ite_of_right {c : Prop} [Decidable c] [Steady x] (h : Steady y) :
    Steady (if c then x else y) :=
  inferInstance

instance [hx : Steady x] (f : α → β) : Steady (f <$> x) := by
  rw [← bind_pure_comp]
  infer_instance

instance [Steady x] : Steady (discard x) :=
  inferInstanceAs (Steady (Function.const α PUnit.unit <$> x))

instance [hx : Steady x] [hy : Steady y] : Steady (speculate x y) where
  behind s := by
    have hbehind := hx.behind { s with mark := s.rest }
    unfold speculate
    cases h : x { s with mark := s.rest } with
    | ok a t =>
      rw [h] at hbehind
      exact ⟨hbehind.rest, .inr hbehind.mark_suffix⟩
    | error fault t =>
      rw [h] at hbehind
      have hback : Cursor.Behind { rest := t.mark, mark := s.mark } s :=
        ⟨hbehind.mark_suffix, .inl rfl⟩
      cases fault with
      | unexpected => exact (hy.behind _).trans hback
      | _ => exact hback

section

variable {condition : Parser Bool} [Steady condition] [Steady x]

instance : Steady (whileM.go condition x n) := by
  induction n with
  | zero => exact inferInstanceAs (Steady (pure []))
  | succ n ih =>
    unfold whileM.go
    infer_instance

instance : Steady (whileM condition x) where
  behind s := (inferInstance : Steady (whileM.go condition x (s.rest.length + 1))).behind s

end

end

instance : Steady (acceptOne p) := by
  unfold acceptOne
  infer_instance

instance (ps : List Pattern) : Steady (accept ps) := by
  induction ps with
  | nil => exact inferInstanceAs (Steady (pure ()))
  | cons p ps ih =>
    unfold accept
    infer_instance

instance : Steady (wouldOneOf texts) := by
  unfold wouldOneOf
  infer_instance

instance : Steady identifier := by
  unfold identifier
  infer_instance

instance : Steady dimensions := by
  unfold dimensions
  infer_instance

section

variable {item : Parser α} [Steady item]

instance : Steady (separated separator item) := by
  unfold separated
  infer_instance

instance : Steady (unless? stop item) := by
  unfold unless?
  infer_instance

instance : Steady (when? start item) := by
  unfold when?
  infer_instance

instance : Steady (after? start item) := by
  unfold after?
  infer_instance

instance : Steady (angled item) := by
  unfold angled
  infer_instance

end

instance : Steady qualifiedName := by
  unfold qualifiedName
  infer_instance

-- ---------------------------------------------------------------------------
-- The rules, given those they refer to
-- ---------------------------------------------------------------------------

class SteadyRules (g : Grammar) : Prop where
  typeArguments : Steady g.typeArguments
  elementValue : Steady g.elementValue
  expression : Steady g.expression
  conditional : Steady g.conditional
  operand : Steady g.operand
  initializer : Steady g.initializer
  block : Steady g.block
  statement : Steady g.statement
  classBody : Steady g.classBody
  typeDeclaration : Steady g.typeDeclaration

attribute [instance] SteadyRules.typeArguments SteadyRules.elementValue SteadyRules.expression
  SteadyRules.conditional SteadyRules.operand SteadyRules.initializer SteadyRules.block
  SteadyRules.statement SteadyRules.classBody SteadyRules.typeDeclaration

-- the size of an instance counts shared parts once for each place
set_option synthInstance.maxSize 1000000

variable {g : Grammar} [SteadyRules g]

instance {arguments : Parser (List TypeArgument)} [Steady arguments] : Steady (segments arguments) := by
  unfold segments
  infer_instance

instance : Steady basicType := by
  unfold basicType
  infer_instance

instance : Steady (namedType g) := by
  unfold namedType
  infer_instance

instance : Steady (type g) := by
  refine bind_of fun kind => ?_
  split <;> infer_instance

instance : Steady (argumentType g) := by
  unfold argumentType
  infer_instance

instance : Steady (typeList g) := by
  unfold typeList
  infer_instance

instance : Steady (typeArgument g) := by
  refine bind_of fun _ => ite_of_left (bind_of fun text => ?_)
  split <;> infer_instance

instance : Steady (typeArguments g) := by
  unfold typeArguments
  infer_instance

instance : Steady (plainTypeArguments g) := by
  unfold plainTypeArguments
  infer_instance

instance : Steady (typeArgumentsOrDiamond g) := by
  unfold typeArgumentsOrDiamond
  infer_instance

instance : Steady (typeParameters g) := by
  unfold typeParameters
  infer_instance

instance : Steady (annotationUse g) := by
  unfold annotationUse
  infer_instance

instance : Steady (elementValue g) := by
  unfold elementValue
  infer_instance

instance : Steady (annotations g) := by
  unfold annotations
  infer_instance

instance : Steady (modifiers g) := by
  unfold modifiers
  infer_instance

instance : Steady (variableModifiers g) := by
  unfold variableModifiers
  infer_instance

instance : Steady (arguments g) := by
  unfold arguments
  infer_instance

instance : Steady (parenthesized g) := by
  unfold parenthesized
  infer_instance

instance : Steady (arrayInitializer g) := by
  unfold arrayInitializer
  infer_instance

instance : Steady (initializer g) := by
  unfold initializer
  infer_instance

instance : Steady (formalParameter g) := by
  unfold formalParameter
  infer_instance

instance : Steady formalParameters.tokensAhead := ⟨.refl⟩

instance {f : Nat → Parser α} [∀ n, Steady (f n)] : Steady (formalParameters.tokensAhead >>= f) :=
  bind_of inferInstance

instance : Steady (formalParameters.go g last n) := by
  induction n generalizing last with
  | zero => exact inferInstanceAs (Steady (pure [last]))
  | succ n ih =>
    unfold formalParameters.go
    infer_instance

instance : Steady (formalParameters g) := by
  unfold formalParameters
  infer_instance

instance : Steady (lambdaBody g) := by
  unfold lambdaBody
  infer_instance

instance : Steady (lambda g) := by
  unfold lambda
  infer_instance

instance : Steady (objectRest g) := by
  unfold objectRest
  infer_instance

instance : Steady (innerCreator g) := by
  unfold innerCreator
  infer_instance

instance {type : TypeRef} : Steady (arrayRest g type) := by
  unfold arrayRest
  infer_instance

instance : Steady (creator g) := by
  unfold creator
  infer_instance

instance : Steady (superSuffix g) := by
  unfold superSuffix
  infer_instance

instance : Steady (genericCall g) := by
  unfold genericCall
  infer_instance

instance : Steady (nameSuffix g site names) := by
  unfold nameSuffix
  have generic (qualifier member : String) (code : Code) : Steady (match code with
      | .call _ _ _ values => return .call site qualifier member values
      | other => return other) := by
    split <;> infer_instance
  infer_instance

instance : Steady (primary g) := by
  have constructed (values : Option (List Code)) : Steady (match values with
      | some values => return Code.primary values
      | none => return Code.this "") := by
    cases values <;> infer_instance
  unfold primary
  infer_instance

instance : Steady (selector g) := by
  have called (site : Position) (member : String) (values : Option (List Code)) :
      Steady (match values with
        | some values => return Code.call site "" member values
        | none => return Code.name "" member) := by
    cases values <;> infer_instance
  unfold selector
  infer_instance

instance : Steady wouldSelector := by
  refine bind_of fun text => ?_
  cases text <;> infer_instance

instance : Steady (selected g) := by
  unfold selected
  infer_instance

instance : Steady (cast g) := by
  unfold cast
  infer_instance

instance : Steady (operand g) := by
  unfold operand
  infer_instance

instance : Steady infixOperator := by
  unfold infixOperator
  infer_instance

instance : Steady (operation g) := by
  unfold operation
  infer_instance

instance : Steady (methodReference g) := by
  unfold methodReference
  infer_instance

instance : Steady (conditional g) := by
  unfold conditional
  infer_instance

instance : Steady (expression g) := by
  unfold expression
  infer_instance

instance : Steady (declarator g) := by
  unfold declarator
  infer_instance

instance : Steady (localVariables g) := by
  unfold localVariables
  infer_instance

instance {statement : Parser Code} [Steady statement] : Steady (blockStatement g statement) := by
  have ahead : Steady (fun s => .ok (lookPast false s.rest.length s.rest) s : Parser Lookahead) :=
    ⟨.refl⟩
  refine bind_of fun _ => bind_of fun _ => ite_of_right (bind_of fun found => ?_)
  cases found <;> infer_instance

instance {statement : Parser Code} [Steady statement] : Steady (blockOf g statement) := by
  unfold blockOf
  infer_instance

instance : Steady switchLabels.tryAcceptName := by
  unfold switchLabels.tryAcceptName
  infer_instance

instance : Steady (switchLabels g) := by
  unfold switchLabels
  infer_instance

instance {statement : Parser Code} [Steady statement] : Steady (switchGroup g statement) := by
  unfold switchGroup
  infer_instance

instance : Steady (loopRest g) := by
  unfold loopRest
  infer_instance

instance : Steady (variableControl g) := by
  unfold variableControl
  infer_instance

instance : Steady (plainControl g) := by
  unfold plainControl
  infer_instance

instance {block : Parser (List Code)} [Steady block] : Steady (catchClause g block) := by
  unfold catchClause
  infer_instance

instance : Steady (resource g) := by
  unfold resource
  infer_instance

instance : Steady (resources g) := by
  unfold resources
  infer_instance

instance {block : Parser (List Code)} [Steady block] : Steady (tryRest g block) := by
  unfold tryRest
  infer_instance

instance : Steady (statement g) := by
  unfold statement
  infer_instance

instance : Steady (block g) := by
  unfold block
  infer_instance

instance {item : Parser (Option α)} [Steady item] : Steady (bodyItems item) := by
  unfold bodyItems
  infer_instance

instance {item : Parser (Option α)} [Steady item] : Steady (body item) := by
  unfold body
  infer_instance

instance : Steady (methodRest g hasBrackets) := by
  unfold methodRest
  infer_instance

instance : Steady (constructorRest g m name) := by
  unfold constructorRest
  infer_instance

instance : Steady (fieldRest g name) := by
  unfold fieldRest
  infer_instance

instance : Steady (constantRest g name) := by
  unfold constantRest
  infer_instance

section

variable {typeRest : Parser TypeDeclaration} [Steady typeRest]

instance : Steady (nestedType m typeRest) := by
  unfold nestedType
  infer_instance

instance : Steady (classMember g typeRest m) := by
  refine bind_of fun _ => ite_of_right (bind_of fun _ => ite_of_right (bind_of fun nested => ?_))
  cases nested <;> infer_instance

instance : Steady (classItem g typeRest) := by
  have block (statements : List Code) : Steady (match statements with
      | [] => return none
      | statements => return some (Declaration.block statements)) := by
    split <;> infer_instance
  unfold classItem
  infer_instance

instance : Steady (classBodyOf g typeRest) := by
  unfold classBodyOf
  infer_instance

instance : Steady (interfaceMember g typeRest m) := by
  refine bind_of fun nested => ?_
  cases nested <;> infer_instance

instance : Steady (interfaceItem g typeRest) := by
  unfold interfaceItem
  infer_instance

instance : Steady (enumConstant g) := by
  unfold enumConstant
  infer_instance

instance : Steady enumBody.tokensAhead := ⟨.refl⟩

instance {f : Nat → Parser α} [∀ n, Steady (f n)] : Steady (enumBody.tokensAhead >>= f) :=
  bind_of inferInstance

instance : Steady (enumBody.constantsFrom g n) := by
  induction n with
  | zero => exact inferInstanceAs (Steady (pure []))
  | succ n ih =>
    unfold enumBody.constantsFrom
    infer_instance

instance : Steady (enumBody g typeRest) := by
  unfold enumBody
  infer_instance

instance : Steady (annotationItem g typeRest) := by
  refine bind_of fun _ => bind_of fun nested => ?_
  cases nested <;> infer_instance

instance : Steady (typeRestOf g typeRest) := by
  unfold typeRestOf
  infer_instance

end

instance : Steady (typeDeclaration g) := by
  unfold typeDeclaration
  infer_instance

instance : Steady (classBody g) := by
  unfold classBody
  infer_instance

instance : Steady (package g) where
  behind s := by
    have attempt : Steady (do
        if ← wouldAnnotate then discard <| annotations g
        tryAccept ["package"]) := inferInstance
    have hbehind := attempt.behind { s with mark := s.rest }
    have name : Steady (do
        let name ← qualifiedName
        accept [";"]
        return name) := inferInstance
    unfold package
    dsimp only
    split
    all_goals
      rename_i t h
      rw [h] at hbehind
    · exact ⟨hbehind.rest, .inr hbehind.mark_suffix⟩
    · exact ⟨hbehind.mark_suffix, .inr hbehind.mark_suffix⟩
    · exact (name.behind t).trans ⟨hbehind.rest, .inr hbehind.mark_suffix⟩

instance : Steady importDeclaration := by
  unfold importDeclaration
  infer_instance

instance : Steady (unitItem g) := by
  refine bind_of fun _ => ite_of_right ⟨fun s => ?_⟩
  have hbehind := (SteadyRules.typeDeclaration (g := g)).behind s
  split
  all_goals
    rename_i h
    rw [h] at hbehind
    exact hbehind

instance : SteadyRules (grammar depth) := by
  induction depth with
  | zero => constructor <;> exact inferInstanceAs (Steady (throw _))
  | succ depth ih =>
    constructor
    all_goals simp only [grammar]; infer_instance

end Parser

end CallerFirst.Java
