import CallerFirst.Java.Parser.Expressions

/-!
# Statements
-/

namespace CallerFirst.Java.Parser

variable (g : Grammar)

def declarator : Parser (Declarator × List Code) := do
  let name ← identifier
  let n ← dimensions
  return (⟨name, n⟩, (← after? "=" (initializer g)).toList)

def declareAll (type : TypeRef) (annotations : List Code)
    (declarators : List (Declarator × List Code)) : Code :=
  .declare (declarators.map fun (d, _) => (d.name, type.render ++ TypeRef.brackets d.dimensions))
    (annotations ++ declarators.flatMap Prod.snd)

def localVariables : Parser Code := do
  let annotations ← variableModifiers g
  let base ← type g
  let declarators ← separated "," (declarator g)
  accept [";"]
  return declareAll base annotations declarators

def dropParenthesized : Nat → List Token → List Token
  | _, [] => []
  | depth, t :: rest =>
    if t.text == "(" then dropParenthesized (depth + 1) rest
    else if t.text == ")" then
      match depth with
      | 0 => rest
      | depth + 1 => dropParenthesized depth rest
    else dropParenthesized depth rest

def dropDotted : List Token → List Token
  | t :: rest =>
    if t.text == "." then
      match rest with
      | [] => []
      | _ :: rest => dropDotted rest
    else t :: rest
  | [] => []

/-- What stands behind modifiers and annotations. -/
inductive Lookahead where
  /-- A modifier that no variable can have. -/
  | typeModifier
  | reached (annotated : Bool) (token : Option Token)

/-- Looks past modifiers and annotations. An annotation without parentheses takes the token behind
it with it. -/
def lookPast (found : Bool) : Nat → List Token → Lookahead
  | 0, _ | _ + 1, [] => .reached found none
  | fuel + 1, t :: rest =>
    if t.kind == .modifier then
      if t.text == "final" then lookPast found fuel rest else .typeModifier
    else if isAnnotationUse (t :: rest) then
      match dropDotted (rest.drop 1) with
      | [] => .reached true none
      | u :: behind =>
        if u.text == "(" then lookPast true fuel (dropParenthesized 0 behind)
        else lookPast true fuel behind
    else .reached found (some t)

/-- A statement, a declaration of local variables or of a local type. -/
def blockStatement (statement : Parser Code) : Parser Code := do
  if (← would [.identifier, ":"]) || (← would ["synchronized"]) then statement
  else
    match ← (fun s => .ok (lookPast false s.rest.length s.rest) s : Parser Lookahead) with
    | .typeModifier => return .localType (← g.typeDeclaration)
    | .reached found token =>
      if token.any fun t => ["class", "enum", "interface", "@"].contains t.text then
        return .localType (← g.typeDeclaration)
      else if found || token.any (·.kind == .basicType) then localVariables g
      else if token.any (·.kind == .identifier) then speculate (localVariables g) statement
      else statement

def blockOf (statement : Parser Code) : Parser (List Code) := do
  accept ["\x7b"]
  let more : Parser Bool := return !(← would ["\x7d"])
  let statements ← whileM more (blockStatement g statement)
  accept ["\x7d"]
  return statements

/-- One or more labels of a switch, each closed by a colon. -/
def switchLabels : Parser (List Code) := do
  let label : Parser (List Code) := do
    let word := (← next).text
    let value ←
      if word != "case" then pure []
      else if ← tryAcceptName then pure []
      else pure [← g.expression]
    accept [":"]
    return value
  let first ← label
  return first ++ (← whileM (wouldOneOf ["case", "default"]) label).flatten
where
  /-- A bare name as label is no expression. -/
  tryAcceptName : Parser Bool := do
    if ← would [.identifier, ":"] then discard next; return true else return false

def switchGroup (statement : Parser Code) : Parser Code := do
  let labels ← switchLabels g
  let more : Parser Bool := return !(← wouldOneOf ["case", "default", "\x7d"])
  return .compound (labels ++ (← whileM more (blockStatement g statement)))

/-- Condition and update of a loop, the semicolon between them included. -/
def loopRest : Parser (List Code) := do
  let condition ← unless? ";" g.expression
  accept [";"]
  let update ← unless? ")" (separated "," g.expression)
  return condition.toList ++ update.getD []

/-- Control of a loop that declares its variables, or goes over the elements of something. -/
def variableControl : Parser (List Code) := do
  let annotations ← variableModifiers g
  let base ← type g
  let name ← identifier
  let variableType := base.addDimensions (← dimensions)
  if ← tryAccept [":"] then
    return [declareAll variableType annotations [(⟨name, 0⟩, [])], ← g.expression]
  else
    let declarators ← unless? ";" do
      let value ← after? "=" (initializer g)
      let more ← whileM (tryAccept [","]) (declarator g)
      return (⟨name, 0⟩, value.toList) :: more
    accept [";"]
    let rest ← loopRest g
    return declareAll variableType annotations (declarators.getD [(⟨name, 0⟩, [])]) :: rest

def plainControl : Parser (List Code) := do
  let start ← unless? ";" (separated "," g.expression)
  accept [";"]
  return start.getD [] ++ (← loopRest g)

def catchClause (block : Parser (List Code)) : Parser Code := do
  accept ["catch", "("]
  discard <| variableModifiers g
  let types ← separated "|" qualifiedName
  let name ← identifier
  accept [")"]
  let body ← block
  return .compound (.declare [(name, types.headD "")] [] :: body)

def resource : Parser Code := do
  let annotations ← variableModifiers g
  let base ← namedType g
  let n ← dimensions
  let name ← identifier
  let variableType := base.addDimensions (n + (← dimensions))
  accept ["="]
  return .declare [(name, variableType.render)] (annotations ++ [← g.expression])

def resources : Parser (List Code) := do
  accept ["("]
  let item : Parser Code := do
    let r ← resource g
    if !(← would [")"]) then accept [";"]
    return r
  let first ← item
  let more : Parser Bool := return !(← tryAccept [")"])
  return first :: (← whileM more item)

def tryRest (block : Parser (List Code)) : Parser Code := do
  let opened ← if ← would ["\x7b"] then pure [] else resources g
  let hasResources := !opened.isEmpty
  let body ← block
  let catches ← whileM (would ["catch"]) (catchClause g block)
  let final ← after? "finally" block
  if !hasResources && catches.isEmpty && final.isNone then illegal "Expected catch/finally block"
  return .compound (opened ++ body ++ catches ++ final.getD [])

/-- A statement. `do` looks at its condition before its body. -/
def statement : Parser Code := do
  if ← would ["\x7b"] then return .compound (← g.block)
  else if ← tryAccept [";"] then return .compound []
  else if ← would [.identifier, ":"] then
    accept [.identifier, ":"]
    g.statement
  else if ← tryAccept ["if"] then
    let condition ← parenthesized g
    let whenTrue ← g.statement
    return .compound ([condition, whenTrue] ++ (← after? "else" g.statement).toList)
  else if ← tryAccept ["assert"] then
    let condition ← g.expression
    let value ← after? ":" g.expression
    accept [";"]
    return .compound (condition :: value.toList)
  else if ← tryAccept ["switch"] then
    let value ← parenthesized g
    accept ["\x7b"]
    let groups ← whileM (wouldOneOf ["case", "default"]) (switchGroup g g.statement)
    accept ["\x7d"]
    return .compound (value :: groups)
  else if ← tryAccept ["while"] then
    let condition ← parenthesized g
    return .compound [condition, ← g.statement]
  else if ← tryAccept ["do"] then
    let body ← g.statement
    accept ["while"]
    let condition ← parenthesized g
    accept [";"]
    return .compound [condition, body]
  else if ← tryAccept ["for"] then
    accept ["("]
    let control ← speculate (variableControl g) (plainControl g)
    accept [")"]
    return .compound (control ++ [← g.statement])
  else if ← wouldOneOf ["break", "continue"] then
    discard next
    discard <| tryAccept [.identifier]
    accept [";"]
    return .compound []
  else if ← tryAccept ["return"] then
    let value ← unless? ";" g.expression
    accept [";"]
    return .compound value.toList
  else if ← tryAccept ["throw"] then
    let value ← g.expression
    accept [";"]
    return .compound [value]
  else if ← tryAccept ["synchronized"] then
    let lock ← parenthesized g
    return .compound (lock :: (← g.block))
  else if ← tryAccept ["try"] then tryRest g g.block
  else
    let value ← g.expression
    accept [";"]
    return .compound [value]

def block : Parser (List Code) :=
  blockOf g (statement g)

end CallerFirst.Java.Parser
