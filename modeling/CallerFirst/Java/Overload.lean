import CallerFirst.Java.TypeRef
import CallerFirst.Text.Case
import CallerFirst.Tree

/-!
# Choosing between overloads

A call is compared with each method of its name by the types of its arguments, as far as they are
known. The method with the best score is taken, and of equals the first.
-/

namespace CallerFirst.Java

namespace Overload

def boxed? : String → Option String
  | "boolean" => some "Boolean"
  | "byte" => some "Byte"
  | "char" => some "Character"
  | "short" => some "Short"
  | "int" => some "Integer"
  | "long" => some "Long"
  | "float" => some "Float"
  | "double" => some "Double"
  | _ => none

/-- Basic types that values of a basic type are widened to. -/
def widened : String → List String
  | "byte" => ["short", "int", "long", "float", "double"]
  | "short" => ["int", "long", "float", "double"]
  | "char" => ["int", "long", "float", "double"]
  | "int" => ["long", "float", "double"]
  | "long" => ["float", "double"]
  | "float" => ["double"]
  | _ => []

def isBasic (type : String) : Bool :=
  (boxed? type).isSome

/-- Type of a literal; `null` has none. -/
def literalType? (text : String) : Option String :=
  let value := text.toList
  let lower := Text.lower value
  let endsWith (c : Char) : Bool := lower.getLast? == some c
  if value.head? == some '"' then some "String"
  else if value.head? == some '\'' then some "char"
  else if text == "true" || text == "false" then some "boolean"
  else if text == "null" then none
  else if ['0', 'x'].isPrefixOf lower || ['0', 'b'].isPrefixOf lower then
    some (if endsWith 'l' then "long" else "int")
  else if endsWith 'l' then some "long"
  else if endsWith 'f' then some "float"
  else if endsWith 'd' || lower.contains '.' || lower.contains 'e' then some "double"
  else some "int"

/-- How well an argument of a type, if known, goes with a parameter. -/
def argumentScore (argument : Option String) (parameter : String) : Int :=
  match argument with
  | none => 0
  | some argument =>
    let argument := TypeRef.simple argument
    let parameter := TypeRef.simple parameter
    if argument == parameter then 2
    else if boxed? argument == some parameter || boxed? parameter == some argument ||
        (widened argument).contains parameter || parameter == "Object" then 1
    else if isBasic argument || isBasic parameter || argument == "String" || parameter == "String"
      then -1
    else 0

def elementType (typeText : String) : String :=
  String.ofList (typeText.toList.take (typeText.length - 3))

/-- Score of an argument for a parameter that takes any number; a lone argument may be the array
itself. -/
def varargsScore (isOnly : Bool) (argument : Option String) (element : String) : Int :=
  if isOnly && argument.any (TypeRef.simple · == TypeRef.simple (element ++ "[]")) then 2
  else argumentScore argument element

def fixedScore : List (Option String) → List Parameter → Int
  | a :: arguments, p :: parameters => argumentScore a p.typeText + fixedScore arguments parameters
  | _, _ => 0

def hasVarargs (m : Method) : Bool :=
  m.parameters.getLast?.any (·.varargs)

/-- How well a call goes with a method: the sum of the scores, and whether the number of arguments
is fixed. A call with a wrong number of arguments does not go with it at all. -/
def applicability (m : Method) (arguments : List (Option String)) : Option (Int × Bool) :=
  let count := m.parameters.length
  if hasVarargs m then
    if arguments.length < count - 1 then none
    else
      let element := elementType ((m.parameters.getLast?.map (·.typeText)).getD "")
      let fixed := fixedScore (arguments.take (count - 1)) (m.parameters.take (count - 1))
      let isOnly := arguments.length == count
      let rest := (arguments.drop (count - 1)).map fun a => varargsScore isOnly a element
      some (rest.foldl (· + ·) fixed, false)
  else if arguments.length != count then none
  else some (fixedScore arguments m.parameters, true)

/-- The first score is greater, or equal and of a fixed number of arguments against any. -/
def better (a b : Int × Bool) : Bool :=
  b.1 < a.1 || (a.1 == b.1 && a.2 && !b.2)

/-- The first of the best methods, going on from the best so far. -/
def bestFrom (arguments : List (Option String)) :
    Option (Method × (Int × Bool)) → List Method → Option (Method × (Int × Bool))
  | best, [] => best
  | best, m :: rest =>
    match applicability m arguments with
    | none => bestFrom arguments best rest
    | some score =>
      if best.all fun (_, bestScore) => better score bestScore then
        bestFrom arguments (some (m, score)) rest
      else bestFrom arguments best rest

def choose (candidates : List Method) (arguments : List (Option String)) : Option Method :=
  (bestFrom arguments none candidates).map Prod.fst

end Overload

end CallerFirst.Java
