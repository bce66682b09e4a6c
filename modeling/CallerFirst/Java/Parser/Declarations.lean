import CallerFirst.Java.Parser.Statements

/-!
# Declarations of types and their members
-/

namespace CallerFirst.Java.Parser

variable (g : Grammar)

structure Modified where
  modifiers : List String
  annotations : List Code

def bodyItems (item : Parser (Option α)) : Parser (List α) := do
  let more : Parser Bool := return !(← would ["\x7d"])
  return (← whileM more item).filterMap id

def body (item : Parser (Option α)) : Parser (List α) := do
  accept ["\x7b"]
  let items ← bodyItems item
  accept ["\x7d"]
  return items

/-- Parameters and what follows them up to the end of a method. -/
structure MethodRest where
  parameters : List (Parameter × Code)
  dimensions : Nat
  body : List Code

/-- Brackets behind the parameters add to the type of the result. -/
def methodRest (hasBrackets : Bool) : Parser MethodRest := do
  let parameters ← formalParameters g
  let extra ← if hasBrackets then dimensions else pure 0
  discard <| after? "throws" (separated "," qualifiedName)
  if ← would ["\x7b"] then return ⟨parameters, extra, ← block g⟩
  else
    accept [";"]
    return ⟨parameters, extra, []⟩

def method (m : Modified) (name : String) (result : Option TypeRef) (rest : MethodRest) :
    Declaration :=
  .method
    { name
      parameters := rest.parameters.map Prod.fst
      modifiers := m.modifiers
      returnType := some (TypeRef.renderResult result) }
    m.annotations (rest.parameters.map Prod.snd) rest.body

def constructorRest (m : Modified) (name : String) : Parser Declaration := do
  let parameters ← formalParameters g
  discard <| after? "throws" (separated "," qualifiedName)
  let statements ← block g
  return .method
    { name
      parameters := parameters.map Prod.fst
      modifiers := m.modifiers
      isConstructor := true }
    m.annotations (parameters.map Prod.snd) statements

def field (m : Modified) (isConstant : Bool) (type : TypeRef)
    (declarators : List (Declarator × List Code)) : Declaration :=
  .field { type, declarators := declarators.map Prod.fst, modifiers := m.modifiers, isConstant }
    m.annotations (declarators.flatMap Prod.snd)

def fieldRest (name : String) : Parser (List (Declarator × List Code)) := do
  let n ← dimensions
  let value ← after? "=" (initializer g)
  return (⟨name, n⟩, value.toList) :: (← whileM (tryAccept [","]) (declarator g))

/-- Declarators of a constant behind its first name. Constants need a value. -/
def constantRest (name : String) : Parser (List (Declarator × List Code)) := do
  let valued : Parser (Nat × Code) := do
    let n ← dimensions
    accept ["="]
    return (n, ← initializer g)
  let (n, value) ← valued
  let more ← whileM (tryAccept [","]) do
    let name ← identifier
    let (n, value) ← valued
    return (⟨name, n⟩, [value])
  return (⟨name, n⟩, [value]) :: more

def nestedType (m : Modified) (typeRest : Parser TypeDeclaration) : Parser (Option Declaration) := do
  if (← wouldOneOf ["class", "enum", "interface"]) || (← wouldAnnotationDeclaration) then
    return some (.type ((← typeRest).withModifiers m.modifiers m.annotations))
  else return none

def classMember (typeRest : Parser TypeDeclaration) (m : Modified) : Parser Declaration := do
  if ← tryAccept ["void"] then
    let name ← identifier
    return method m name none (← methodRest g false)
  else if ← would ["<"] then
    typeParameters g
    if ← would [.identifier, "("] then constructorRest g m (← identifier)
    else if ← tryAccept ["void"] then
      let name ← identifier
      return method m name none (← methodRest g false)
    else
      let result ← type g
      let name ← identifier
      let rest ← methodRest g true
      return method m name (some (result.addDimensions rest.dimensions)) rest
  else if let some nested ← nestedType m typeRest then return nested
  else if ← would [.identifier, "("] then constructorRest g m (← identifier)
  else
    let base ← type g
    let name ← identifier
    if ← would ["("] then
      let rest ← methodRest g true
      return method m name (some (base.addDimensions rest.dimensions)) rest
    else
      let declarators ← fieldRest g name
      accept [";"]
      return field m false base declarators

/-- An item of a class body. Empty declarations and empty blocks are nothing. -/
def classItem (typeRest : Parser TypeDeclaration) : Parser (Option Declaration) := do
  if ← tryAccept [";"] then return none
  else if (← would ["static", "\x7b"]) || (← would ["\x7b"]) then
    discard <| tryAccept ["static"]
    match ← block g with
    | [] => return none
    | statements => return some (.block statements)
  else
    let (modifiers, annotations) ← modifiers g
    return some (← classMember g typeRest ⟨modifiers, annotations⟩)

def classBodyOf (typeRest : Parser TypeDeclaration) : Parser (List Declaration) :=
  body (classItem g typeRest)

/-- A member of an interface behind its modifiers. Brackets behind the parameters of a generic
method are ignored. -/
def interfaceMember (typeRest : Parser TypeDeclaration) (m : Modified) : Parser Declaration := do
  if let some nested ← nestedType m typeRest then return nested
  else if ← would ["<"] then
    typeParameters g
    let result ← if ← tryAccept ["void"] then pure none else some <$> type g
    let name ← identifier
    return method m name result (← methodRest g true)
  else if ← tryAccept ["void"] then
    let name ← identifier
    return method m name none (← methodRest g false)
  else
    let base ← type g
    let name ← identifier
    if ← would ["("] then
      let rest ← methodRest g true
      return method m name (some (base.addDimensions rest.dimensions)) rest
    else
      let declarators ← constantRest g name
      accept [";"]
      return field m true base declarators

def interfaceItem (typeRest : Parser TypeDeclaration) : Parser (Option Declaration) := do
  if ← tryAccept [";"] then return none
  else
    let (modifiers, annotations) ← modifiers g
    return some (← interfaceMember g typeRest ⟨modifiers, annotations⟩)

def enumConstant : Parser Declaration := do
  let marks ← if ← would [.kind .atSign] then annotations g else pure []
  let name ← identifier
  let values ← when? "(" (arguments g)
  return .enumConstant name marks (values.getD []) (← when? "\x7b" g.classBody)

/-- Constants of an enum, then its members behind a semicolon. -/
def enumBody (typeRest : Parser TypeDeclaration) :
    Parser (List Declaration × List Declaration) := do
  accept ["\x7b"]
  let constants ← if ← tryAccept [","] then pure [] else constantsFrom ((← tokensAhead) + 1)
  let members ←
    if ← tryAccept [";"] then bodyItems (classItem g typeRest) else pure []
  accept ["\x7d"]
  return (constants, members)
where
  tokensAhead : Parser Nat := fun s => .ok s.rest.length s
  constantsFrom : Nat → Parser (List Declaration)
    | 0 => return []
    | n + 1 => do
      if (← would [";"]) || (← would ["\x7d"]) then return []
      let constant ← enumConstant g
      if ← tryAccept [","] then return constant :: (← constantsFrom n) else return [constant]

def annotationItem (typeRest : Parser TypeDeclaration) : Parser (Option Declaration) := do
  let (modifiers, annotations) ← modifiers g
  let m : Modified := ⟨modifiers, annotations⟩
  if let some nested ← nestedType m typeRest then return some nested
  else
    let base ← type g
    let name ← identifier
    if ← tryAccept ["("] then
      accept [")"]
      discard dimensions
      let value ← after? "default" (elementValue g)
      accept [";"]
      return some (.annotationMember name base annotations value.toList)
    else
      let declarators ← constantRest g name
      accept [";"]
      return some (field m true base declarators)

/-- A type from the word on that says what kind it is. `typeRest` reads types nested in it. -/
def typeRestOf (typeRest : Parser TypeDeclaration) : Parser TypeDeclaration := do
  let position ← here
  if ← tryAccept ["class"] then
    let name ← identifier
    if ← would ["<"] then typeParameters g
    discard <| after? "extends" (type g)
    discard <| after? "implements" (typeList g)
    let members ← classBodyOf g typeRest
    return .mk { kind := .class_, name, position } [] [] members
  else if ← tryAccept ["enum"] then
    let name ← identifier
    discard <| after? "implements" (typeList g)
    let (constants, members) ← enumBody g typeRest
    return .mk { kind := .enum, name, position } [] constants members
  else if ← tryAccept ["interface"] then
    let name ← identifier
    if ← would ["<"] then typeParameters g
    discard <| after? "extends" (typeList g)
    let members ← body (interfaceItem g typeRest)
    return .mk { kind := .interface, name, position } [] [] members
  else if ← wouldAnnotationDeclaration then
    accept ["@", "interface"]
    let name ← identifier
    let members ← body (annotationItem g typeRest)
    return .mk { kind := .annotationType, name, position } [] [] members
  else illegal "Expected type declaration"

def typeDeclaration : Parser TypeDeclaration := do
  let (modifiers, annotations) ← modifiers g
  let declaration ← typeRestOf g g.typeDeclaration
  return declaration.withModifiers modifiers annotations

def classBody : Parser (List Declaration) :=
  classBodyOf g g.typeDeclaration

end CallerFirst.Java.Parser
