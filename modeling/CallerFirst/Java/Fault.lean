import CallerFirst.Java.Body
import CallerFirst.Java.Parser.Cursor
import CallerFirst.Java.Token.Lexer

/-!
# What can be wrong with a source
-/

namespace CallerFirst.Java

inductive Fault where
  | lexical (fault : LexicalFault)
  | parse (fault : ParseFault)
  | malformed (reason : Malformed)
  /-- A token stands on a line that the text does not have. -/
  | noSuchLine

namespace Fault

def syntaxText (description : String) : Option Position → String
  | some p =>
    "Syntax error at line " ++ toString p.line ++ ", column " ++ toString p.column ++ ": " ++
      description
  | none => "Syntax error: " ++ description

def message? : Fault → Option String
  | lexical (.problem message) => some ("Lexer error: " ++ message)
  | parse (.unexpected description position) => some (syntaxText description position)
  | _ => none

def located (path message : String) : String :=
  if path.isEmpty then message else path ++ ": " ++ message

end Fault

end CallerFirst.Java
