import CallerFirst.Java.Parser.Grammar

/-!
# Types, modifiers and annotations
-/

namespace CallerFirst.Java.Parser

variable (g : Grammar)

/-- Segments joined by dots; `arguments` reads the type arguments of a segment. -/
def segments (arguments : Parser (List TypeArgument)) : Parser (Segment × List Segment) := do
  let segment : Parser Segment := do
    let name ← identifier
    return .mk name ((← when? "<" arguments).getD [])
  let first ← segment
  return (first, ← whileM (tryAccept ["."]) segment)

def namedType : Parser TypeRef := do
  let (first, more) ← segments g.typeArguments
  return .named first more 0

def basicType : Parser TypeRef :=
  return .basic (← acceptOne (.kind .basicType)).text 0

def type : Parser TypeRef := do
  let base ←
    match ← lookKind with
    | some .basicType => basicType
    | some .identifier => namedType g
    | _ => illegal "Expected type"
  return base.addDimensions (← dimensions)

def argumentType : Parser TypeRef := do
  if ← would [.kind .basicType] then
    let base ← basicType
    accept ["[", "]"]
    return base.addDimensions ((← dimensions) + 1)
  else
    let base ← namedType g
    return base.addDimensions (← dimensions)

def typeList : Parser (List TypeRef) :=
  separated "," (argumentType g)

def typeArgument : Parser TypeArgument := do
  if ← tryAccept ["?"] then
    match ← lookText with
    | some "extends" => discard next; return .bounded .extends_ (← argumentType g)
    | some "super" => discard next; return .bounded .super_ (← argumentType g)
    | _ => return .wildcard
  else return .exact (← argumentType g)

def angled (item : Parser α) : Parser (List α) := do
  accept ["<"]
  let first ← item
  let closed : Parser Bool := do
    if ← tryAccept [">"] then return false
    accept [","]
    return true
  return first :: (← whileM closed item)

def typeArguments : Parser (List TypeArgument) :=
  angled (typeArgument g)

def plainTypeArguments : Parser (List TypeRef) := do
  accept ["<"]
  let types ← typeList g
  accept [">"]
  return types

/-- Type arguments that may be left out between their brackets. -/
def typeArgumentsOrDiamond : Parser (List TypeArgument) := do
  if ← tryAccept ["<", ">"] then return [] else g.typeArguments

def typeParameters : Parser Unit :=
  discard <| angled do
    discard identifier
    if ← tryAccept ["extends"] then
      discard <| separated "&" (namedType g)

/-- An annotation, kept as the values of its elements. -/
def annotationUse : Parser Code := do
  accept ["@"]
  discard qualifiedName
  if !(← tryAccept ["("]) then return .compound []
  let values ←
    if ← would [")"] then pure []
    else if ← would [.identifier, "="] then
      separated "," do
        discard identifier
        accept ["="]
        g.elementValue
    else pure [← g.elementValue]
  accept [")"]
  return .compound values

/-- Value of an element: an annotation, a list of values or an expression. -/
def elementValue : Parser Code := do
  if ← wouldAnnotate then annotationUse g
  else if ← would ["\x7b"] then
    accept ["\x7b"]
    if ← tryAccept ["\x7d"] then return .compound []
    let first ← g.elementValue
    let more : Parser Bool := do
      if (← would ["\x7d"]) || (← would [",", "\x7d"]) then return false
      accept [","]
      return true
    let rest ← whileM more g.elementValue
    discard <| tryAccept [","]
    accept ["\x7d"]
    return .compound (first :: rest)
  else g.conditional

def annotations : Parser (List Code) := do
  let first ← annotationUse g
  return first :: (← whileM wouldAnnotate (annotationUse g))

/-- Modifiers without repeats, and annotations, in any order. -/
def modifiers : Parser (List String × List Code) := do
  let isModifier : Parser Bool := do
    if ← would [.kind .modifier] then return true else wouldAnnotate
  let items ← whileM isModifier do
    if ← would [.kind .modifier] then return Sum.inl (← next).text
    else return Sum.inr (← annotationUse g)
  return ((items.filterMap Sum.getLeft?).eraseDups, items.filterMap Sum.getRight?)

def variableModifiers : Parser (List Code) := do
  let isModifier : Parser Bool := do
    if ← would ["final"] then return true else wouldAnnotate
  let items ← whileM isModifier do
    if ← tryAccept ["final"] then return none
    else return some (← annotationUse g)
  return items.filterMap id

end CallerFirst.Java.Parser
