import CallerFirst.Java.Parser.Declarations

/-!
# Compilation units

`CompilationUnit.ofTokens` ties the rules of the grammar together and reads a whole unit.
-/

namespace CallerFirst.Java

/-- The rules with all references resolved `depth` levels deep. -/
def grammar : (depth : Nat) → Grammar
  | 0 => .none
  | depth + 1 =>
    let g := grammar depth
    { typeArguments := Parser.typeArguments g
      elementValue := Parser.elementValue g
      expression := Parser.expression g
      conditional := Parser.conditional g
      operand := Parser.operand g
      initializer := Parser.initializer g
      block := Parser.block g
      statement := Parser.statement g
      classBody := Parser.classBody g
      typeDeclaration := Parser.typeDeclaration g }

structure CompilationUnit where
  package : String
  types : List TypeDeclaration

namespace Parser

variable (g : Grammar)

/-- Name of the package, or nothing. Annotations without a package belong to what follows. -/
def package : Parser String :=
  fun s =>
    let attempt : Parser Bool := do
      if ← wouldAnnotate then discard <| annotations g
      tryAccept ["package"]
    match attempt { s with mark := s.rest } with
    | .error fault t => .error fault t
    | .ok false t => .ok "" { t with rest := t.mark }
    | .ok true t => (do
        let name ← qualifiedName
        accept [";"]
        return name : Parser String) t

def importDeclaration : Parser Unit := do
  accept ["import"]
  discard <| tryAccept ["static"]
  discard identifier
  -- each round stands behind a dot
  let more : Parser Bool := do
    if ← tryAccept ["."] then
      if ← tryAccept ["*"] then return false else return true
    else return false
  discard <| whileM more identifier
  accept [";"]

/-- A type at the level of the unit. A declaration that runs into the end of the input is reported
at the token ahead. -/
def unitItem : Parser (Option TypeDeclaration) := do
  if ← tryAccept [";"] then return none
  else
    fun s =>
      match g.typeDeclaration s with
      | .ok declaration t => .ok (some declaration) t
      | .error .endOfInput t => illegal "Unexpected end of input" t
      | .error fault t => .error fault t

def unit : Parser CompilationUnit := do
  let package ← package g
  discard <| whileM (would ["import"]) importDeclaration
  let more : Parser Bool := return (← look).isSome
  let types ← whileM more (unitItem g)
  return { package, types := types.filterMap id }

end Parser

namespace CompilationUnit

/-- The unit that a list of tokens spells. Between two references to a recursive rule at most one
level takes no token, which bounds the depth. -/
def ofTokens (tokens : List Token) : Except ParseFault CompilationUnit :=
  match Parser.unit (grammar (2 * tokens.length + 4)) { rest := tokens, mark := tokens } with
  | .ok unit _ => .ok unit
  | .error fault _ => .error fault

end CompilationUnit

end CallerFirst.Java
