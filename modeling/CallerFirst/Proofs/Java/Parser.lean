import CallerFirst.Proofs.Java.Parser.Steady
import CallerFirst.Proofs.Java.WrittenType

/-!
# What the grammar can give

A type whose body holds methods holds no elements of an annotation, and the constants of an enum stand
apart from its members (`ofTokens_unmixed`). Methods and the types of their parameters are called by
identifiers (`ofTokens_written`). Only what a rule returns matters here, and on which tokens, not how far
it reads.
-/

namespace CallerFirst.Java

namespace Parser

/-- Over tokens with a property, whatever a parser returns has another. -/
def Gives (T : Token → Prop) (p : Parser α) (P : α → Prop) : Prop :=
  ∀ s a t, s.Over T → p s = .ok a t → P a

namespace Gives

variable {T : Token → Prop} {P : α → Prop} {Q : β → Prop}

theorem pure (h : P a) : Gives T (Pure.pure a : Parser α) P := by
  rintro s b t - ⟨⟩
  exact h

theorem bind {x : Parser β} [hsteady : Steady x] {f : β → Parser α} (hx : Gives T x Q)
    (hf : ∀ b, Q b → Gives T (f b) P) : Gives T (x >>= f) P := by
  intro s a t hs h
  have hkept := hsteady.keeps hs
  cases hb : x s with
  | ok b s' =>
    rw [hb] at hkept
    refine hf b (hx s b s' hs hb) s' a t hkept ?_
    simpa [Bind.bind, EStateM.bind, hb] using h
  | error => simp [Bind.bind, EStateM.bind, hb] at h

theorem behind {x : Parser β} [Steady x] {f : β → Parser α} (hf : ∀ b, Gives T (f b) P) :
    Gives T (x >>= f) P :=
  bind (Q := fun _ => True) (fun _ _ _ _ _ => trivial) fun b _ => hf b

theorem illegal (description : String) : Gives T (Parser.illegal description) P := by
  rintro s a t - ⟨⟩

theorem ite {c : Prop} [Decidable c] {x y : Parser α} (hx : Gives T x P) (hy : Gives T y P) :
    Gives T (if c then x else y) P := by
  split
  · exact hx
  · exact hy

theorem whileM {item : Parser α} [Steady item] (h : Gives T item P) (condition : Parser Bool)
    [Steady condition] : Gives T (Parser.whileM condition item) fun items => ∀ a ∈ items, P a := by
  have go (n : Nat) : Gives T (Parser.whileM.go condition item n) fun items => ∀ a ∈ items, P a := by
    induction n with
    | zero => exact pure (by simp)
    | succ n ih =>
      refine behind fun more => ite ?_ (pure (by simp))
      refine bind h fun a ha => bind ih fun items hitems => pure ?_
      exact List.forall_mem_cons.mpr ⟨ha, hitems⟩
  exact fun s items t hs => go _ s items t hs

end Gives

theorem next_gives {T : Token → Prop} : Gives T next T := by
  intro s t s' hs h
  unfold next at h
  split at h
  · cases h
  · rename_i hrest
    cases h
    exact hs.rest t (hrest ▸ List.mem_cons_self)

section Names

variable {spelled : String → Prop}

theorem acceptOne_gives {kind : TokenKind} (hname : kind.isName = true) :
    Gives (Token.Spells spelled) (acceptOne (.kind kind)) (spelled ∘ Token.text) := by
  refine .bind next_gives fun t ht => ?_
  split
  · rename_i hkind
    obtain rfl : t.kind = kind := by simpa [Pattern.accepts] using hkind
    exact .pure (ht hname)
  · exact .illegal _

theorem identifier_gives : Gives (Token.Spells spelled) identifier spelled :=
  .bind (acceptOne_gives rfl) fun _ ht => .pure ht

-- ---------------------------------------------------------------------------
-- Types and parameters
-- ---------------------------------------------------------------------------

theorem segments_gives {arguments : Parser (List TypeArgument)} [Steady arguments] :
    Gives (Token.Spells spelled) (segments arguments) fun found =>
      ∀ s ∈ found.1 :: found.2, spelled s.name := by
  have segment : Gives (Token.Spells spelled) (do
      let name ← identifier
      return Segment.mk name ((← when? "<" arguments).getD [])) fun s => spelled s.name :=
    .bind identifier_gives fun _ h => .behind fun _ => .pure h
  refine .bind segment fun first hfirst => .bind (segment.whileM _) fun more hmore => .pure ?_
  exact List.forall_mem_cons.mpr ⟨hfirst, hmore⟩

variable {g : Grammar} [SteadyRules g]

theorem namedType_gives : Gives (Token.Spells spelled) (namedType g) (·.Named spelled) :=
  .bind segments_gives fun _ h => .pure (List.forall_mem_map.mpr h)

theorem basicType_gives : Gives (Token.Spells spelled) basicType (·.Named spelled) :=
  .bind (acceptOne_gives rfl) fun _ h => .pure (List.forall_mem_singleton.mpr h)

theorem type_gives : Gives (Token.Spells spelled) (type g) (·.Named spelled) := by
  have brackets {base : TypeRef} (h : base.Named spelled) :
      Gives (Token.Spells spelled) (do return base.addDimensions (← dimensions)) (·.Named spelled) :=
    .behind fun n => .pure (h.addDimensions n)
  refine .behind fun kind => ?_
  split
  · exact .bind basicType_gives fun _ h => brackets h
  · exact .bind namedType_gives fun _ h => brackets h
  · exact .bind (Q := fun _ => False) (.illegal _) fun _ h => h.elim

theorem formalParameter_gives :
    Gives (Token.Spells spelled) (formalParameter g) fun p =>
      TypeRef.Writes spelled p.1.typeText := by
  refine .behind fun _ => .bind type_gives fun base h => .behind fun varargs => .behind fun _ =>
    .behind fun n => .pure ⟨_, h.addDimensions n, ?_⟩
  cases varargs
  · exact .inl rfl
  · exact .inr rfl

theorem formalParameters_go_gives {last : Parameter × Code}
    (hlast : TypeRef.Writes spelled last.1.typeText) (n : Nat) :
    Gives (Token.Spells spelled) (formalParameters.go g last n) fun parameters =>
      ∀ p ∈ parameters, TypeRef.Writes spelled p.1.typeText := by
  have hsingle : ∀ p ∈ [last], TypeRef.Writes spelled p.1.typeText := List.forall_mem_singleton.mpr hlast
  induction n generalizing last with
  | zero => exact .pure hsingle
  | succ n ih =>
    refine .ite (.pure hsingle) (.behind fun _ => .ite ?_ (.pure hsingle))
    refine .bind formalParameter_gives fun following hfollowing => ?_
    refine .bind (ih hfollowing (List.forall_mem_singleton.mpr hfollowing)) fun rest hrest => .pure ?_
    exact List.forall_mem_cons.mpr ⟨hlast, hrest⟩

theorem formalParameters_gives :
    Gives (Token.Spells spelled) (formalParameters g) fun parameters =>
      ∀ p ∈ parameters, TypeRef.Writes spelled p.1.typeText := by
  refine .behind fun _ => .behind fun _ => .ite (.pure (by simp)) ?_
  refine .bind formalParameter_gives fun first hfirst => .behind fun _ => ?_
  exact .bind (formalParameters_go_gives hfirst _) fun _ h => .behind fun _ => .pure h

end Names

end Parser

-- ---------------------------------------------------------------------------
-- Declarations by kind
-- ---------------------------------------------------------------------------

namespace Declaration

def isEnumConstant : Declaration → Bool
  | enumConstant .. => true
  | _ => false

def fitsClass : Declaration → Bool
  | method .. | field .. | block .. | type .. => true
  | enumConstant .. | annotationMember .. => false

def fitsAnnotationType : Declaration → Bool
  | field .. | annotationMember .. | type .. => true
  | method .. | enumConstant .. | block .. => false

end Declaration

def Declaration.Written (spelled : String → Prop) : Declaration → Prop
  | method header .. => header.Written spelled
  | _ => True

theorem Declaration.Written.of_fitsAnnotationType {spelled : String → Prop} {d : Declaration}
    (h : d.fitsAnnotationType = true) : d.Written spelled := by
  cases d with
  | method => cases h
  | _ => trivial

theorem Declaration.Written.of_isEnumConstant {spelled : String → Prop} {d : Declaration}
    (h : d.isEnumConstant = true) : d.Written spelled := by
  cases d with
  | enumConstant => trivial
  | _ => cases h

/-- Constants are constants, and all other declarations fit the kind of type. -/
def TypeDeclaration.Unmixed : TypeDeclaration → Prop
  | mk _ _ constants declarations =>
    (∀ d ∈ constants, d.isEnumConstant = true) ∧
      ((∀ d ∈ declarations, d.fitsClass = true) ∨ ∀ d ∈ declarations, d.fitsAnnotationType = true)

def TypeDeclaration.Written (spelled : String → Prop) : TypeDeclaration → Prop
  | mk _ _ constants declarations => ∀ d ∈ constants ++ declarations, d.Written spelled

theorem TypeDeclaration.Unmixed.withModifiers {t : TypeDeclaration} (h : t.Unmixed) :
    (t.withModifiers modifiers annotations).Unmixed := by
  cases t
  exact h

theorem TypeDeclaration.Written.withModifiers {spelled : String → Prop} {t : TypeDeclaration}
    (h : t.Written spelled) : (t.withModifiers modifiers annotations).Written spelled := by
  cases t
  exact h

namespace Parser

variable {g : Grammar} [SteadyRules g] {typeRest : Parser TypeDeclaration} [Steady typeRest]
  {T : Token → Prop} {spelled : String → Prop}

open Declaration

theorem bodyItems_gives {item : Parser (Option α)} [Steady item] {P : α → Prop}
    (h : Gives T item fun found => ∀ a ∈ found, P a) :
    Gives T (bodyItems item) fun items => ∀ a ∈ items, P a := by
  refine .bind (h.whileM _) fun found hfound => .pure fun a ha => ?_
  obtain ⟨o, ho, rfl⟩ := List.mem_filterMap.mp ha
  exact hfound _ ho a rfl

theorem body_gives {item : Parser (Option α)} [Steady item] {P : α → Prop}
    (h : Gives T item fun found => ∀ a ∈ found, P a) :
    Gives T (body item) fun items => ∀ a ∈ items, P a :=
  .behind fun _ => .bind (bodyItems_gives h) fun _ hitems => .behind fun _ => .pure hitems

theorem nestedType_gives (m : Modified) :
    Gives T (nestedType m typeRest) fun found =>
      ∀ d ∈ found, d.fitsClass = true ∧ d.fitsAnnotationType = true := by
  refine .behind fun _ => .behind fun _ => .ite (.behind fun _ => .pure ?_) (.pure (by simp))
  rintro d ⟨⟩
  exact ⟨rfl, rfl⟩

def IsMember (spelled : String → Prop) (d : Declaration) : Prop :=
  d.fitsClass = true ∧ d.Written spelled

theorem written_of_parameters {header : Method} {parameters : List (Parameter × Code)}
    (hname : spelled header.name) (heq : header.parameters = parameters.map Prod.fst)
    (h : ∀ p ∈ parameters, TypeRef.Writes spelled p.1.typeText) : header.Written spelled := by
  refine ⟨hname, ?_⟩
  rw [Method.parameterTypes, heq, List.map_map]
  exact List.forall_mem_map.mpr h

theorem constructorRest_gives (m : Modified) (hname : spelled name) :
    Gives (Token.Spells spelled) (constructorRest g m name) (IsMember spelled) :=
  .bind formalParameters_gives fun _ h => .behind fun _ => .behind fun _ =>
    .pure ⟨rfl, written_of_parameters hname rfl h⟩

theorem methodRest_gives (hasBrackets : Bool) :
    Gives (Token.Spells spelled) (methodRest g hasBrackets) fun rest =>
      ∀ p ∈ rest.parameters, TypeRef.Writes spelled p.1.typeText := by
  refine .bind formalParameters_gives fun parameters h => .ite ?_ ?_
  all_goals
    refine .behind fun extra => .behind fun _ => .behind fun _ => .ite ?_ ?_
    all_goals exact .behind fun _ => .pure h

theorem method_gives (m : Modified) (hname : spelled name) (hasBrackets : Bool)
    (result : MethodRest → Option TypeRef) :
    Gives (Token.Spells spelled) (do
      let rest ← methodRest g hasBrackets
      return method m name (result rest) rest) (IsMember spelled) :=
  .bind (methodRest_gives hasBrackets) fun _ h =>
    .pure ⟨rfl, written_of_parameters hname rfl h⟩

theorem classMember_gives (m : Modified) :
    Gives (Token.Spells spelled) (classMember g typeRest m) (IsMember spelled) := by
  unfold classMember
  refine .behind fun _ => .ite ?void (.behind fun _ => .ite ?generic ?other)
  case void => exact .bind identifier_gives fun _ h => method_gives m h false fun _ => none
  case generic =>
    refine .behind fun _ => .behind fun _ => .ite ?_ (.behind fun _ => .ite ?_ ?_)
    · exact .bind identifier_gives fun _ h => constructorRest_gives m h
    · exact .bind identifier_gives fun _ h => method_gives m h false fun _ => none
    · exact .behind fun result => .bind identifier_gives fun _ h =>
        method_gives m h true fun rest => some (result.addDimensions rest.dimensions)
  case other =>
    refine .bind (nestedType_gives m) fun found hfound => ?_
    cases found with
    | some d => exact .pure ⟨(hfound d rfl).1, .of_fitsAnnotationType (hfound d rfl).2⟩
    | none =>
      refine .behind fun _ => .ite (.bind identifier_gives fun _ h => constructorRest_gives m h) ?_
      refine .behind fun base => .bind identifier_gives fun _ h => .behind fun _ => .ite ?_ ?_
      · exact method_gives m h true fun rest => some (base.addDimensions rest.dimensions)
      · exact .behind fun _ => .behind fun _ => .pure ⟨rfl, trivial⟩

theorem classItem_gives :
    Gives (Token.Spells spelled) (classItem g typeRest) fun found => ∀ d ∈ found, IsMember spelled d := by
  refine .behind fun _ => .ite (.pure (by simp)) ?_
  refine .behind fun _ => .behind fun _ => .ite ?_ ?_
  · refine .behind fun _ => .behind fun statements => ?_
    cases statements with
    | nil => exact .pure (by simp)
    | cons => exact .pure (by rintro d ⟨⟩; exact ⟨rfl, trivial⟩)
  · refine .behind fun _ => .bind (classMember_gives _) fun d hd => .pure ?_
    rintro d ⟨⟩
    exact hd

theorem interfaceMember_gives (m : Modified) :
    Gives (Token.Spells spelled) (interfaceMember g typeRest m) (IsMember spelled) := by
  refine .bind (nestedType_gives m) fun found hfound => ?_
  cases found with
  | some d => exact .pure ⟨(hfound d rfl).1, .of_fitsAnnotationType (hfound d rfl).2⟩
  | none =>
    refine .behind fun _ => .ite ?_ (.behind fun _ => .ite ?_ ?_)
    · refine .behind fun _ => .behind fun _ => .ite ?_ ?_
      all_goals
        exact .behind fun result => .bind identifier_gives fun _ h =>
          method_gives m h true fun _ => result
    · exact .bind identifier_gives fun _ h => method_gives m h false fun _ => none
    · refine .behind fun base => .bind identifier_gives fun _ h => .behind fun _ => .ite ?_ ?_
      · exact method_gives m h true fun rest => some (base.addDimensions rest.dimensions)
      · exact .behind fun _ => .behind fun _ => .pure ⟨rfl, trivial⟩

theorem interfaceItem_gives :
    Gives (Token.Spells spelled) (interfaceItem g typeRest) fun found =>
      ∀ d ∈ found, IsMember spelled d := by
  refine .behind fun _ => .ite (.pure (by simp)) ?_
  refine .behind fun _ => .bind (interfaceMember_gives _) fun d hd => .pure ?_
  rintro d ⟨⟩
  exact hd

theorem annotationItem_gives :
    Gives T (annotationItem g typeRest) fun found => ∀ d ∈ found, d.fitsAnnotationType = true := by
  refine .behind fun _ => .bind (nestedType_gives _) fun found hfound => ?_
  cases found with
  | some d => exact .pure fun e he => (hfound e he).2
  | none =>
    refine .behind fun _ => .behind fun _ => .behind fun _ => .ite ?_ ?_
    · refine .behind fun _ => .behind fun _ => .behind fun _ => .behind fun _ => .pure ?_
      rintro d ⟨⟩
      rfl
    · refine .behind fun _ => .behind fun _ => .pure ?_
      rintro d ⟨⟩
      rfl

theorem enumConstant_gives : Gives T (enumConstant g) fun d => d.isEnumConstant = true := by
  refine .behind fun _ => .ite ?_ ?_
  all_goals exact .behind fun _ => .behind fun _ => .behind fun _ => .behind fun _ => .pure rfl

theorem constantsFrom_gives (n : Nat) :
    Gives T (enumBody.constantsFrom g n) fun ds => ∀ d ∈ ds, d.isEnumConstant = true := by
  induction n with
  | zero => exact .pure (by simp)
  | succ n ih =>
    refine .behind fun _ => .behind fun _ => .ite (.pure (by simp)) ?_
    refine .bind enumConstant_gives fun d hd => .behind fun _ => .ite ?_ (.pure (by simpa using hd))
    exact .bind ih fun ds hds => .pure (List.forall_mem_cons.mpr ⟨hd, hds⟩)

theorem enumBody_gives :
    Gives (Token.Spells spelled) (enumBody g typeRest) fun found =>
      (∀ d ∈ found.1, d.isEnumConstant = true) ∧ ∀ d ∈ found.2, IsMember spelled d := by
  have members {constants : List Declaration} (h : ∀ d ∈ constants, d.isEnumConstant = true) :
      Gives (Token.Spells spelled) (do
        let members ← if ← tryAccept [";"] then bodyItems (classItem g typeRest) else pure []
        accept ["\x7d"]
        return (constants, members)) fun found =>
        (∀ d ∈ found.1, d.isEnumConstant = true) ∧
          ∀ d ∈ found.2, IsMember spelled d := by
    refine .behind fun _ => .ite ?_ ?_
    · exact .bind (bodyItems_gives classItem_gives) fun _ hm => .behind fun _ => .pure ⟨h, hm⟩
    · exact .bind (Q := (· = [])) (.pure rfl) fun _ hnil => .behind fun _ => .pure ⟨h, by simp [hnil]⟩
  refine .behind fun _ => .behind fun _ => .ite ?_ ?_
  · exact .bind (Q := (· = [])) (.pure rfl) fun _ hnil => members (by simp [hnil])
  · exact .behind fun _ => .bind (constantsFrom_gives _) fun _ h => members h

theorem unmixed_mk {head : TypeHead} {marks : List Code}
    (hconstants : ∀ d ∈ constants, d.isEnumConstant = true)
    (hmembers : ∀ d ∈ members, IsMember spelled d) :
    (TypeDeclaration.mk head marks constants members).Unmixed ∧
      (TypeDeclaration.mk head marks constants members).Written spelled := by
  refine ⟨⟨hconstants, .inl fun d hd => (hmembers d hd).1⟩, fun d hd => ?_⟩
  rcases List.mem_append.mp hd with hd | hd
  · exact .of_isEnumConstant (hconstants d hd)
  · exact (hmembers d hd).2

theorem typeRestOf_gives :
    Gives (Token.Spells spelled) (typeRestOf g typeRest) fun t => t.Unmixed ∧ t.Written spelled := by
  refine .behind fun _ => .behind fun _ => .ite ?class_ (.behind fun _ => .ite ?enum
    (.behind fun _ => .ite ?interface (.behind fun _ => .ite ?annotationType (.illegal _))))
  case class_ =>
    refine .behind fun _ => .behind fun _ => .ite (.behind fun _ => ?_) ?_
    all_goals
      refine .behind fun _ => .behind fun _ => .bind (body_gives classItem_gives) fun _ h => ?_
      exact .pure (unmixed_mk (by simp) h)
  case enum =>
    refine .behind fun _ => .behind fun _ => .bind enumBody_gives fun found h => .pure ?_
    exact unmixed_mk h.1 h.2
  case interface =>
    refine .behind fun _ => .behind fun _ => .ite (.behind fun _ => ?_) ?_
    all_goals
      refine .behind fun _ => .bind (body_gives interfaceItem_gives) fun _ h => ?_
      exact .pure (unmixed_mk (by simp) h)
  case annotationType =>
    refine .behind fun _ => .behind fun _ => ?_
    refine .bind (body_gives annotationItem_gives) fun _ h => .pure ⟨⟨by simp, .inr h⟩, ?_⟩
    exact fun d hd => .of_fitsAnnotationType (h d hd)

theorem typeDeclaration_gives :
    Gives (Token.Spells spelled) (typeDeclaration g) fun t => t.Unmixed ∧ t.Written spelled :=
  .behind fun _ => .bind typeRestOf_gives fun _ h => .pure ⟨h.1.withModifiers, h.2.withModifiers⟩

end Parser

variable {spelled : String → Prop}

theorem Parser.unitItem_gives {g : Grammar} {T : Token → Prop} {P : TypeDeclaration → Prop}
    (h : Gives T g.typeDeclaration P) : Gives T (unitItem g) fun found => ∀ t ∈ found, P t := by
  refine .behind fun _ => .ite (.pure (by simp)) ?_
  intro s a t hs ha
  dsimp only at ha
  split at ha
  · rename_i declaration _ hd
    cases ha
    rintro _ ⟨⟩
    exact h _ _ _ hs hd
  · cases ha
  · cases ha

theorem grammar_typeDeclaration_gives (spelled : String → Prop) (depth : Nat) :
    Parser.Gives (Token.Spells spelled) (grammar depth).typeDeclaration
      fun t => t.Unmixed ∧ t.Written spelled := by
  cases depth with
  | zero => rintro s a t - ⟨⟩
  | succ depth => exact Parser.typeDeclaration_gives

namespace CompilationUnit

theorem ofTokens_gives (htokens : ∀ t ∈ tokens, t.Spells spelled) (h : ofTokens tokens = .ok unit) :
    ∀ t ∈ unit.types, t.Unmixed ∧ t.Written spelled := by
  have hunit : Parser.Gives (Token.Spells spelled) (Parser.unit (grammar (2 * tokens.length + 4)))
      fun unit => ∀ t ∈ unit.types, t.Unmixed ∧ t.Written spelled := by
    have item := Parser.unitItem_gives (grammar_typeDeclaration_gives spelled (2 * tokens.length + 4))
    refine .behind fun _ => .behind fun _ => .bind (item.whileM _) fun found hfound => .pure ?_
    intro t ht
    obtain ⟨o, ho, rfl⟩ := List.mem_filterMap.mp ht
    exact hfound _ ho t rfl
  unfold ofTokens at h
  split at h
  · rename_i hu
    cases h
    exact hunit _ _ _ ⟨htokens, htokens⟩ hu
  · cases h

theorem ofTokens_unmixed (h : ofTokens tokens = .ok unit) : ∀ t ∈ unit.types, t.Unmixed := by
  have hspells : ∀ t ∈ tokens, t.Spells fun _ => True := fun _ _ _ => trivial
  exact fun t ht => (ofTokens_gives hspells h t ht).1

theorem ofTokens_written (htokens : ∀ t ∈ tokens, t.Spells spelled) (h : ofTokens tokens = .ok unit) :
    ∀ t ∈ unit.types, t.Written spelled :=
  fun t ht => (ofTokens_gives htokens h t ht).2

end CompilationUnit

end CallerFirst.Java
