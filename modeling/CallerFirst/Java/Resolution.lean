import CallerFirst.Java.Code
import CallerFirst.Java.Overload
import CallerFirst.Java.Variables

/-!
# Binding of calls

A call without qualifier is bound to a method of the innermost type around it that has one of that
name. Types of arguments are inferred from literals, variables, fields and other calls; a call is
resolved once and the result is kept.
-/

namespace CallerFirst.Java

/-- Methods and fields that a type body makes visible. -/
structure Scope where
  binding : TypeBinding
  methods : List Method := []
  fields : Variables := []

namespace Scope

def methodsNamed (s : Scope) (name : String) : List Method :=
  s.methods.filter fun m => m.name == name && !m.isConstructor

end Scope

/-- What is visible at a place: the types around it, innermost first, and local variables. -/
structure Scopes where
  types : List Scope := []
  locals : Variables := []

namespace Scopes

def variableType? (s : Scopes) (name : String) : Option String :=
  match s.locals.lookup name with
  | some type => some type
  | none => s.types.findSome? fun scope => scope.fields.lookup name

end Scopes

/-- The method a call is bound to, with the type that declares it. -/
structure Resolution where
  declaringType : TypeBinding
  method : Method

/-- Calls resolved so far. -/
abbrev Resolved := List (Position × Option Resolution)

namespace Scopes

/-- The resolution of a call of `name` with arguments of the given types, once they are asked for.
-/
def lookup (s : Scopes) (name : String) (argumentTypes : StateM Resolved (List (Option String))) :
    StateM Resolved (Option Resolution) := do
  match s.types.find? fun scope => !(scope.methodsNamed name).isEmpty with
  | none => return none
  | some scope =>
    let types ← argumentTypes
    return (Overload.choose (scope.methodsNamed name) types).map fun m => ⟨scope.binding, m⟩

/-- `lookup` for the call at `site`, unless that was resolved before. -/
def lookupOnce (s : Scopes) (site : Position) (name : String)
    (argumentTypes : StateM Resolved (List (Option String))) :
    StateM Resolved (Option Resolution) := do
  match (← get).lookup site with
  | some known => return known
  | none =>
    let found ← s.lookup name argumentTypes
    modify ((site, found) :: ·)
    return found

def truthOperators : List String :=
  ["==", "!=", "<", ">", "<=", ">=", "&&", "||", "instanceof"]

mutual
/-- Type text of an expression, as far as it is known. -/
def infer (s : Scopes) : Code → StateM Resolved (Option String)
  | .literal text => return Overload.literalType? text
  | .select (.literal text) _ => return Overload.literalType? text
  | .name qualifier member =>
    return if qualifier.isEmpty then s.variableType? member else none
  | .cast type _ => return some type.render
  | .create type _ _ => return some type.render
  | .createArray type dimensions _ => return some (type.render ++ TypeRef.brackets dimensions)
  | .call site qualifier member arguments => do
    if qualifier.isEmpty then
      let found ← s.lookupOnce site member (inferAll s arguments)
      return found.bind (·.method.returnType)
    else return none
  | .this qualifier =>
    return if qualifier.isEmpty then
      (s.types.head?.map (·.binding.name)).filter (!·.isEmpty) else none
  | .binary operator left right => do
    if truthOperators.contains operator then return some "boolean"
    else if operator == "+" then
      let l ← infer s left
      let r ← infer s right
      return if l == some "String" || r == some "String" then some "String" else none
    else return none
  | .conditional _ whenTrue _ => infer s whenTrue
  | _ => return none
def inferAll (s : Scopes) : List Code → StateM Resolved (List (Option String))
  | [] => return []
  | code :: rest => do
    let type ← infer s code
    return type :: (← inferAll s rest)
end

def resolve (s : Scopes) (site : Position) (name : String) (arguments : List Code) :
    StateM Resolved (Option Resolution) :=
  s.lookupOnce site name (inferAll s arguments)

end Scopes

end CallerFirst.Java
