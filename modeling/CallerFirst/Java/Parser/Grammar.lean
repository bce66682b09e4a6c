import CallerFirst.Java.Code
import CallerFirst.Java.Parser.Cursor

/-!
# The recursive rules of the grammar

Each rule is written against a `Grammar`, which holds the rules it refers to, and refers to them
only where a token was taken or where the rule it refers to takes one. `Grammar.none` has no rules.
-/

namespace CallerFirst.Java

structure Grammar where
  typeArguments : Parser (List TypeArgument)
  elementValue : Parser Code
  expression : Parser Code
  /-- An expression without assignment. -/
  conditional : Parser Code
  operand : Parser Code
  /-- An expression or the elements of an array. -/
  initializer : Parser Code
  block : Parser (List Code)
  statement : Parser Code
  classBody : Parser (List Declaration)
  typeDeclaration : Parser TypeDeclaration

def Grammar.none : Grammar where
  typeArguments := throw .endOfInput
  elementValue := throw .endOfInput
  expression := throw .endOfInput
  conditional := throw .endOfInput
  operand := throw .endOfInput
  initializer := throw .endOfInput
  block := throw .endOfInput
  statement := throw .endOfInput
  classBody := throw .endOfInput
  typeDeclaration := throw .endOfInput

end CallerFirst.Java
