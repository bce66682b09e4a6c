/-!
# Java types as written

`TypeRef.render` writes a type back as text without blanks; the text is what signatures and overload
resolution work on. `TypeRef.simple` takes such a text apart again.
-/

namespace CallerFirst.Java

inductive Bound where
  | extends_
  | super_
  deriving DecidableEq

def Bound.word : Bound → String
  | .extends_ => "extends"
  | .super_ => "super"

mutual
/-- A basic type, or a chain of named segments, with a number of array dimensions. -/
inductive TypeRef where
  | basic (name : String) (dimensions : Nat)
  | named (first : Segment) (more : List Segment) (dimensions : Nat)
inductive Segment where
  | mk (name : String) (arguments : List TypeArgument)
inductive TypeArgument where
  | wildcard
  | bounded (bound : Bound) (type : TypeRef)
  | exact (type : TypeRef)
end

instance : Inhabited TypeRef := ⟨.basic "" 0⟩

def Segment.name : Segment → String
  | .mk name _ => name

namespace TypeRef

def brackets (dimensions : Nat) : String :=
  String.ofList (List.replicate dimensions ['[', ']']).flatten

def dimensions : TypeRef → Nat
  | basic _ n => n
  | named _ _ n => n

def addDimensions : TypeRef → Nat → TypeRef
  | basic name n, more => .basic name (n + more)
  | named first rest n, more => .named first rest (n + more)

end TypeRef

mutual
def TypeRef.render : TypeRef → String
  | .basic name dimensions => name ++ TypeRef.brackets dimensions
  | .named first more dimensions =>
    first.render ++ renderSegments more ++ TypeRef.brackets dimensions
def Segment.render : Segment → String
  | .mk name [] => name
  | .mk name (a :: rest) => name ++ "<" ++ a.render ++ renderArguments rest ++ ">"
def TypeArgument.render : TypeArgument → String
  | .wildcard => "?"
  | .bounded bound type => "? " ++ bound.word ++ " " ++ type.render
  | .exact type => type.render
def renderSegments : List Segment → String
  | [] => ""
  | s :: rest => "." ++ s.render ++ renderSegments rest
def renderArguments : List TypeArgument → String
  | [] => ""
  | a :: rest => "," ++ a.render ++ renderArguments rest
end

namespace TypeRef

/-- Text of a type in a header; a missing type is `void`. -/
def renderResult (type : Option TypeRef) : String :=
  type.elim "void" render

/-- Removes every `<` … `>` without angle brackets inside. Text behind an open bracket is held back
until it is closed. -/
def dropInnermost : (held : Option (List Char)) → List Char → List Char
  | none, [] => []
  | some held, [] => held.reverse
  | none, '<' :: rest => dropInnermost (some ['<']) rest
  | none, c :: rest => c :: dropInnermost none rest
  | some held, '<' :: rest => held.reverse ++ dropInnermost (some ['<']) rest
  | some _, '>' :: rest => dropInnermost none rest
  | some held, c :: rest => dropInnermost (some (c :: held)) rest

/-- Removes innermost type arguments until none is left. Each round that changes the text makes it
shorter, so its length is enough fuel. -/
def dropArguments : Nat → List Char → List Char
  | 0, text => text
  | fuel + 1, text =>
    let next := dropInnermost none text
    if next = text then text else dropArguments fuel next

def splitBrackets : List Char → Nat × List Char
  | '[' :: ']' :: rest => let (n, text) := splitBrackets rest; (n + 1, text)
  | c :: rest => let (n, text) := splitBrackets rest; (n, c :: text)
  | [] => (0, [])

def lastSegment (text : List Char) : List Char :=
  (text.reverse.takeWhile (· != '.')).reverse

/-- Last name of a type text with its brackets: `java.util.List<String>[]` becomes `List[]`. -/
def simple (typeText : String) : String :=
  let text := dropArguments typeText.length typeText.toList
  let (dimensions, base) := splitBrackets text
  String.ofList (lastSegment base) ++ brackets dimensions

end TypeRef

end CallerFirst.Java
