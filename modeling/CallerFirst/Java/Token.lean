/-!
# Java tokens

A token is a slice of the source with its class and the place where it starts. Lines and columns
count from 1, and a column counts code points.
-/

namespace CallerFirst.Java

structure Position where
  line : Nat
  column : Nat
  deriving DecidableEq, Inhabited

inductive TokenKind where
  | keyword
  | modifier
  | basicType
  | literal
  | separator
  | operator
  | atSign
  | identifier
  deriving DecidableEq, Inhabited

structure Token where
  kind : TokenKind
  text : String
  position : Position
  deriving DecidableEq, Inhabited

namespace Token

def basicTypes : List String :=
  ["boolean", "byte", "char", "double", "float", "int", "long", "short"]

def modifiers : List String :=
  ["abstract", "default", "final", "native", "private", "protected", "public", "static",
   "strictfp", "synchronized", "transient", "volatile"]

/-- Reserved words that are neither a modifier nor a basic type. -/
def keywords : List String :=
  ["assert", "break", "case", "catch", "class", "const", "continue", "do", "else", "enum",
   "extends", "finally", "for", "goto", "if", "implements", "import", "instanceof", "interface",
   "new", "package", "return", "super", "switch", "this", "throw", "throws", "try", "void",
   "while"]

def wordLiterals : List String := ["true", "false", "null"]

def kindOfWord (word : String) : TokenKind :=
  if basicTypes.contains word then .basicType
  else if modifiers.contains word then .modifier
  else if keywords.contains word then .keyword
  else if wordLiterals.contains word then .literal
  else .identifier

def separators : List Char := ['(', ')', '\x7b', '\x7d', '[', ']', ';', ',', '.']

/-- Operators by length, longest first. Shifts to the right are no tokens of their own: they are
read as adjacent `>`, since the same characters close nested type arguments. -/
def operators : List (List Char) :=
  [">>>=", ">>=", "<<=", "...", "%=", "^=", "|=", "&=", "/=", "*=", "-=", "+=", "<<", "--", "++",
   "||", "&&", "!=", ">=", "<=", "==", "->", "::", "%", "^", "|", "&", "/", "*", "-", "+", ":",
   "?", "~", "!", "<", ">", "="].map String.toList

def operatorLength? (text : List Char) : Option Nat :=
  (operators.find? (·.isPrefixOf text)).map List.length

end Token

end CallerFirst.Java
