import CallerFirst.Java.Convert
import CallerFirst.Java.Parser.Unit

/-!
# Reading a compilation unit

`Java.readUnit` takes a source to its tree. Only the first type of the unit is read in full; the
others are kept without members.
-/

namespace CallerFirst.Java

def topLevelBinding (package name : String) : TypeBinding :=
  { name, key := if package.isEmpty then name else package ++ "." ++ name }

def shallowType (package : String) (index : Nat) (head : TypeHead) : Node :=
  .type { index }
    { name := head.name
      kind := head.kind.name
      binding := some (topLevelBinding package head.name)
      modifiers := head.modifiers } []

def typeNodes (source : Source) (unit : CompilationUnit) : Except Fault (List Node) :=
  match unit.types with
  | [] => .ok []
  | first :: rest => do
    let binding := topLevelBinding unit.package first.head.name
    let (node, _) ← (Convert.typeNode source {} 0 none binding first).run {}
    return node :: rest.mapIdx fun i t => shallowType unit.package (i + 1) t.head

def readUnit (text : String) : Except Fault Node := do
  let chars := text.toList
  let tokens ← (Token.ofSource chars).mapError .lexical
  let unit ← (CompilationUnit.ofTokens tokens).mapError .parse
  let types ← typeNodes (.ofTokens chars tokens) unit
  return .unit text unit.package types

end CallerFirst.Java
