import CallerFirst.Java.Escape
import CallerFirst.Java.Token
import CallerFirst.Java.Token.Number
import CallerFirst.Text.Identifier

/-!
# Cutting a source into tokens

`Token.ofSource` reads the whole text, escapes replaced. Only line breaks in gaps and comments are
counted: a line break inside a string literal starts no new line.
-/

namespace CallerFirst.Java

inductive LexicalProblem where
  | invalidEscape (digits : List Char)
  | unterminatedComment
  | unterminatedLiteral
  | illegalEscape (c : Char)
  | invalidHexFraction (place : Nat)
  | unknownCharacter (c : Char)

def LexicalProblem.title : LexicalProblem → String
  | .invalidEscape _ => "Invalid unicode escape"
  | .unterminatedComment => "Unterminated block comment"
  | .unterminatedLiteral => "Unterminated character/string literal"
  | .illegalEscape _ => "Illegal escape character"
  | .invalidHexFraction _ => "Invalid hex float literal"
  | .unknownCharacter _ => "Could not process token"

inductive LexicalFault where
  | problem (message : String)
  /-- A number is cut off by the end of the text. -/
  | cutOffNumber
  /-- A hexadecimal fraction is cut off in front of its exponent. -/
  | cutOffExponent
  /-- An escape stands for a negative code. -/
  | negativeEscape

namespace Token

/-- Progress of a scan: the text ahead, its index, the current line and where that line starts, and
the end of the token before. -/
structure Scan where
  rest : List Char
  index : Nat := 0
  line : Nat := 1
  lineStart : Nat := 0
  lastEnd : Nat := 0

def Scan.position (s : Scan) : Position :=
  ⟨s.line, s.index - s.lineStart + 1⟩

/-- Passes over a gap or comment of `length` characters and counts its line breaks. -/
def Scan.skip (s : Scan) (length : Nat) : Scan :=
  let gap := s.rest.take length
  let breaks := gap.count '\n'
  { s with
    rest := s.rest.drop length
    index := s.index + length
    line := s.line + breaks
    lineStart :=
      if breaks = 0 then s.lineStart
      else s.index + length - (gap.reverse.takeWhile (· != '\n')).length }

def Scan.take (s : Scan) (length : Nat) : Scan :=
  { s with
    rest := s.rest.drop length
    index := s.index + length
    lastEnd := s.index + length }

/-- The line around `index`, trimmed. On the last line the last character of the text is missing. -/
def lineAround (source : List Char) (index : Nat) : String :=
  let before := ((source.take index).reverse.takeWhile (· != '\n')).reverse
  let after := source.drop index
  let after := if after.contains '\n' then after.takeWhile (· != '\n') else after.dropLast
  String.ofList (Text.trim (before ++ after))

def shown (source : List Char) (lastEnd : Nat) : LexicalProblem → Option String
  | .invalidEscape digits => some (String.ofList digits)
  | .illegalEscape c => some (String.singleton c)
  | .unknownCharacter c => some (String.singleton c)
  | .invalidHexFraction place => (source.drop place).head?.map String.singleton
  | .unterminatedComment | .unterminatedLiteral =>
    (source.drop lastEnd).head?.map String.singleton

def Scan.fault (source : List Char) (s : Scan) (problem : LexicalProblem) : LexicalFault :=
  match shown source s.lastEnd problem with
  | none => .cutOffExponent
  | some text =>
    .problem (problem.title ++ " at \"" ++ text ++ "\", line " ++ toString s.line ++ ": " ++
      lineAround source s.index)

inductive LiteralState where
  | plain
  | escape
  | octal
  | octalEnd

/-- Length of a quoted literal after its opening quote, closing quote included. -/
def quotedLength (quote : Char) : LiteralState → List Char → Except LexicalProblem Nat
  | _, [] => .error .unterminatedLiteral
  | .escape, c :: rest =>
    if "btnfru\"'\\".toList.contains c then (· + 1) <$> quotedLength quote .plain rest
    else if '0' ≤ c && c ≤ '3' then (· + 1) <$> quotedLength quote .octal rest
    else if '4' ≤ c && c ≤ '7' then (· + 1) <$> quotedLength quote .octalEnd rest
    else .error (.illegalEscape c)
  | state, c :: rest =>
    match state with
    | .octal =>
      if '0' ≤ c && c ≤ '7' then (· + 1) <$> quotedLength quote .octalEnd rest
      else if c == '\\' then (· + 1) <$> quotedLength quote .escape rest
      else if c == quote then .ok 1
      else (· + 1) <$> quotedLength quote .octal rest
    | _ =>
      if c == '\\' then (· + 1) <$> quotedLength quote .escape rest
      else if c == quote then .ok 1
      else (· + 1) <$> quotedLength quote .plain rest

/-- Length up to the end of a block comment, its closing mark included. -/
def blockEnd? : List Char → Option Nat
  | '*' :: '/' :: _ => some 2
  | _ :: rest => (blockEnd? rest).map (· + 1)
  | [] => none

inductive Piece where
  | gap (length : Nat)
  | token (kind : TokenKind) (length : Nat)

inductive PieceFault where
  | problem (p : LexicalProblem)
  | cutOff

def numberPiece (index : Nat) (length : Except Number.Fault Nat) : Except PieceFault Piece :=
  match length with
  | .ok n => .ok (.token .literal n)
  | .error .cutOff => .error .cutOff
  | .error (.missingExponent n) => .error (.problem (.invalidHexFraction (index + n)))

def pieceAt (index : Nat) (c : Char) (rest : List Char) : Except PieceFault Piece :=
  if Text.isBlank c then .ok (.gap (1 + (rest.takeWhile Text.isBlank).length))
  else if c == '/' && rest.head? == some '/' then
    let body := (rest.drop 1).takeWhile (· != '\n')
    .ok (.gap (min (2 + body.length + 1) (1 + rest.length)))
  else if c == '/' && rest.head? == some '*' then
    match blockEnd? (rest.drop 1) with
    | some n => .ok (.gap (2 + n))
    | none => .error (.problem .unterminatedComment)
  else if c == '.' && ['.', '.'].isPrefixOf rest then .ok (.token .operator 3)
  else if c == '@' then .ok (.token .atSign 1)
  else if c == '.' && rest.head?.any Text.isDigit then numberPiece index (Number.decimal (c :: rest))
  else if separators.contains c then .ok (.token .separator 1)
  else if c == '\'' || c == '"' then
    match quotedLength c .plain rest with
    | .ok n => .ok (.token .literal (1 + n))
    | .error p => .error (.problem p)
  else if c.isDigit then numberPiece index (Number.literal (c :: rest))
  else if Text.isIdentifierStart c then
    let word := c :: rest.takeWhile Text.isIdentifierPart
    .ok (.token (kindOfWord (String.ofList word)) word.length)
  else
    match operatorLength? (c :: rest) with
    | some n => .ok (.token .operator n)
    | none => .error (.problem (.unknownCharacter c))

/-- Tokens from the place of the scan on. Every piece has a character, so the length of the text is
enough fuel. -/
def scanFrom (source : List Char) : Nat → Scan → Except LexicalFault (List Token)
  | 0, _ => .ok []
  | fuel + 1, s =>
    match s.rest with
    | [] => .ok []
    | c :: rest =>
      match pieceAt s.index c rest with
      | .error .cutOff => .error .cutOffNumber
      | .error (.problem p) => .error (s.fault source p)
      | .ok (.gap n) => scanFrom source fuel (s.skip n)
      | .ok (.token kind n) => do
        let token := ⟨kind, String.ofList (s.rest.take n), s.position⟩
        return token :: (← scanFrom source fuel (s.take n))

def scan (source : List Char) : Except LexicalFault (List Token) :=
  scanFrom source source.length { rest := source }

/-- Tokens of a source. Positions refer to the text with its escapes replaced. -/
def ofSource (source : List Char) : Except LexicalFault (List Token) :=
  match Escape.expand source with
  | .ok text => scan text
  | .error .negative => .error .negativeEscape
  | .error (.invalid digits) =>
    .error (Scan.fault source { rest := source } (.invalidEscape digits))

end Token

end CallerFirst.Java
