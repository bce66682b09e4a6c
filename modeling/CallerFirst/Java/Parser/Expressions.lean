import CallerFirst.Java.Parser.Types

/-!
# Expressions
-/

namespace CallerFirst.Java.Parser

variable (g : Grammar)

def assignmentOperators : List String :=
  ["=", "+=", "-=", "*=", "/=", "&=", "|=", "^=", "%=", "<<=", ">>=", ">>>="]

def prefixOperators : List String := ["++", "--", "!", "~", "+", "-"]

def postfixOperators : List String := ["++", "--"]

/-- Binary operators from the loosest to the tightest. -/
def precedence : List (List String) :=
  [["||"], ["&&"], ["|"], ["^"], ["&"], ["==", "!="], ["<", ">", ">=", "<=", "instanceof"],
   ["<<", ">>", ">>>"], ["+", "-"], ["*", "/", "%"]]

def infixOperators : List String := precedence.flatten

/-- Cuts a chain of operands at the operators of one level. -/
def cutAt (level : List String) (first : Code) :
    List (String × Code) → (Code × List (String × Code)) × List (String × Code × List (String × Code))
  | [] => ((first, []), [])
  | (op, operand) :: rest =>
    let ((next, chain), groups) := cutAt level operand rest
    if level.contains op then ((first, []), (op, next, chain) :: groups)
    else ((first, (op, next) :: chain), groups)

/-- Joins a chain of operands by precedence; operators of one level group to the left. -/
def assemble : List (List String) → Code → List (String × Code) → Code
  | [], first, _ => first
  | level :: tighter, first, chain =>
    let ((head, headChain), groups) := cutAt level first chain
    groups.foldl (fun left (op, operand, chain) => .binary op left (assemble tighter operand chain))
      (assemble tighter head headChain)

def arguments : Parser (List Code) := do
  accept ["("]
  if ← tryAccept [")"] then return []
  let values ← separated "," g.expression
  accept [")"]
  return values

def parenthesized : Parser Code := do
  accept ["("]
  let value ← g.expression
  accept [")"]
  return value

def arrayInitializer : Parser Code := do
  accept ["\x7b"]
  if ← tryAccept [","] then
    accept ["\x7d"]
    return .compound []
  if ← tryAccept ["\x7d"] then return .compound []
  let element : Parser Code := do
    let value ← g.initializer
    if !(← would ["\x7d"]) then accept [","]
    return value
  let first ← element
  let more : Parser Bool := return !(← tryAccept ["\x7d"])
  return .compound (first :: (← whileM more element))

def initializer : Parser Code := do
  if ← would ["\x7b"] then arrayInitializer g else g.expression

/-- Parameter of a method or lambda expression, with its type as headers show it. -/
def formalParameter : Parser (Parameter × Code) := do
  let annotations ← variableModifiers g
  let base ← type g
  let varargs ← tryAccept ["..."]
  let name ← identifier
  let rendered := (base.addDimensions (← dimensions)).render
  let header : Parameter :=
    { typeText := if varargs then rendered ++ "..." else rendered, name, varargs }
  let variableType := if varargs then rendered ++ "[]" else rendered
  return (header, .declare [(name, variableType)] annotations)

/-- Parameters in parentheses. One that takes any number of arguments is the last. -/
def formalParameters : Parser (List (Parameter × Code)) := do
  accept ["("]
  if ← tryAccept [")"] then return []
  let first ← formalParameter g
  let parameters ← go first ((← tokensAhead) + 1)
  accept [")"]
  return parameters
where
  tokensAhead : Parser Nat := fun s => .ok s.rest.length s
  go (last : Parameter × Code) : Nat → Parser (List (Parameter × Code))
    | 0 => return [last]
    | n + 1 => do
      if last.1.varargs then return [last]
      if ← tryAccept [","] then
        let following ← formalParameter g
        return last :: (← go following n)
      else return [last]

def lambdaBody : Parser (List Code) := do
  accept ["->"]
  if ← would ["\x7b"] then g.block else return [← g.expression]

def lambda : Parser Code := do
  let parameters ←
    if ← would ["(", .identifier, ","] then do
      accept ["("]
      let more : Parser Bool := return !(← would [")"])
      discard <| whileM more do
        discard identifier
        discard <| tryAccept [","]
      accept [")"]
      pure []
    else
      pure ((← formalParameters g).map Prod.snd)
  return .compound (parameters ++ (← lambdaBody g))

def objectRest : Parser (List Code × Option (List Declaration)) := do
  let values ← arguments g
  return (values, ← when? "\x7b" g.classBody)

/-- A new object of an inner class, behind `new`. -/
def innerCreator : Parser Code := do
  if ← would ["<"] then discard <| plainTypeArguments g
  discard identifier
  if ← would ["<"] then
    if !(← tryAccept ["<", ">"]) then discard <| plainTypeArguments g
  let (values, body) ← objectRest g
  return .createInner values body

/-- Brackets of a new array, empty ones with its elements, or sizes before empty ones. -/
def arrayRest (type : TypeRef) : Parser Code := do
  if ← would ["[", "]"] then
    let n ← dimensions
    return .createArray type n [← arrayInitializer g]
  else
    let sized : Parser Bool := return (← would ["["]) && !(← would ["[", "]"])
    let sizes ← whileM sized do
      accept ["["]
      let size ← g.expression
      accept ["]"]
      return size
    return .createArray type (sizes.length + (← dimensions)) sizes

def creator : Parser Code := do
  if ← would [.kind .basicType] then
    arrayRest g (← basicType)
  else
    let constructorArguments ← when? "<" (plainTypeArguments g)
    let (first, more) ← segments (typeArgumentsOrDiamond g)
    let created : TypeRef := .named first more 0
    if ← would ["["] then
      if constructorArguments.isSome then
        illegal "Array creator not allowed with generic constructor type arguments"
      arrayRest g created
    else
      let (values, body) ← objectRest g
      return .create created values body

/-- What follows `super`: a member, a call, or the arguments of a constructor. -/
def superSuffix : Parser Code := do
  if ← tryAccept ["."] then
    if ← would ["<"] then discard <| plainTypeArguments g
    discard identifier
    return .primary ((← when? "(" (arguments g)).getD [])
  else return .primary (← arguments g)

def genericCall : Parser Code := do
  if ← tryAccept ["super"] then superSuffix g
  else
    let site ← here
    let member ← identifier
    return .call site "" member (← arguments g)

/-- What follows a dotted name. The last name is the member of a call or reference, and those in
front are its qualifier; a call behind explicit type arguments takes the same names. -/
def nameSuffix (site : Position) (names : List String) : Parser Code := do
  let qualifier := String.intercalate "." names.dropLast
  let member := names.getLast?.getD ""
  if ← tryAccept ["[", "]"] then
    discard dimensions
    accept [".", "class"]
    return .primary []
  else if ← would ["("] then return .call site qualifier member (← arguments g)
  else if ← tryAccept [".", "class"] then return .primary []
  else if ← tryAccept [".", "this"] then return .this (String.intercalate "." names)
  else if ← would [".", "<"] then
    accept ["."]
    discard <| plainTypeArguments g
    match ← genericCall g with
    | .call _ _ _ values => return .call site qualifier member values
    | other => return other
  else if ← tryAccept [".", "new"] then innerCreator g
  else if ← would [".", "super", "("] then
    accept [".", "super"]
    return .primary (← arguments g)
  else return .name qualifier member

def primary : Parser Code := do
  if ← would [.kind .literal] then return .literal (← next).text
  else if ← would ["("] then parenthesized g
  else if ← tryAccept ["this"] then
    match ← when? "(" (arguments g) with
    | some values => return .primary values
    | none => return .this ""
  else if ← would ["super", "::"] then
    accept ["super"]
    return .primary []
  else if ← tryAccept ["super"] then superSuffix g
  else if ← tryAccept ["new"] then creator g
  else if ← would ["<"] then
    discard <| plainTypeArguments g
    if ← tryAccept ["this"] then return .primary (← arguments g) else genericCall g
  else if ← would [.identifier] then
    let site ← here
    let first ← identifier
    let rest ← whileM (would [".", .identifier]) do
      accept ["."]
      identifier
    nameSuffix g site (first :: rest)
  else if ← would [.kind .basicType] then
    discard basicType
    discard dimensions
    accept [".", "class"]
    return .primary []
  else if ← would ["void"] then
    accept ["void", ".", "class"]
    return .primary []
  else illegal "Expected expression"

def selector : Parser Code := do
  if ← tryAccept ["["] then
    let index ← g.expression
    accept ["]"]
    return .compound [index]
  else if ← tryAccept ["."] then
    if ← would [.identifier] then
      let site ← here
      let member ← identifier
      match ← when? "(" (arguments g) with
      | some values => return .call site "" member values
      | none => return .name "" member
    else if ← would ["super", "::"] then
      accept ["super"]
      return .primary []
    else if ← would ["<"] then
      discard <| plainTypeArguments g
      genericCall g
    else if ← tryAccept ["this"] then return .this ""
    else if ← tryAccept ["super"] then superSuffix g
    else if ← tryAccept ["new"] then innerCreator g
    else illegal "Expected selector"
  else illegal "Expected selector"

/-- A selector is ahead; the input must not end behind a primary expression. -/
def wouldSelector : Parser Bool := do
  match ← lookText with
  | some text => return text == "[" || text == "."
  | none => throw .openExpression

/-- A primary expression with selectors. Selectors that a parenthesized expression had are lost. -/
def selected : Parser Code := do
  let target ← primary g
  let selectors ← whileM wouldSelector (selector g)
  discard <| whileM (wouldOneOf postfixOperators) next
  return target.withSelectors selectors

def cast : Parser Code := do
  accept ["("]
  let target ← type g
  accept [")"]
  return .cast target (← g.operand)

/-- An operand: a lambda expression or cast where a parenthesis allows one, else a primary
expression. Signs in front do not matter. -/
def operand : Parser Code := do
  discard <| whileM (wouldOneOf prefixOperators) next
  if ← would ["("] then
    speculate (lambda g) (speculate (cast g) (selected g))
  else selected g

/-- A binary operator; adjacent `>` are one shift. -/
def infixOperator : Parser String := do
  let op := (← next).text
  if op != ">" then return op
  if !(← tryAccept [">"]) then return ">"
  if ← tryAccept [">"] then return ">>>" else return ">>"

def operation : Parser Code := do
  let first ← operand g
  let more : Parser Bool := do
    if ← wouldOneOf infixOperators then return true else would ["instanceof"]
  let chain ← whileM more do
    if ← tryAccept ["instanceof"] then
      discard <| type g
      return ("instanceof", .compound [])
    else
      let op ← infixOperator
      return (op, ← operand g)
  return assemble precedence first chain

def methodReference : Parser Code := do
  if ← would ["<"] then discard <| plainTypeArguments g
  if ← tryAccept ["new"] then return .compound [] else g.expression

/-- A conditional, a lambda expression without parentheses, a method reference, or an operation. -/
def conditional : Parser Code := do
  let first ← operation g
  if ← tryAccept ["?"] then
    let whenTrue ← g.expression
    accept [":"]
    return .conditional first whenTrue (← g.conditional)
  else if ← would ["->"] then return .compound (first :: (← lambdaBody g))
  else if ← tryAccept ["::"] then return .compound [first, ← methodReference g]
  else return first

def expression : Parser Code := do
  let target ← conditional g
  if ← wouldOneOf assignmentOperators then
    discard next
    return .compound [target, ← g.expression]
  else return target

end CallerFirst.Java.Parser
