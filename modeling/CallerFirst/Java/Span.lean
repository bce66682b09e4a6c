import CallerFirst.Java.Fault
import CallerFirst.Text.Lines

/-!
# Spans of members in the source

Tokens are found in the source by their lines and columns. The span of a member reaches from its
first token to its last, and over a comment that starts behind it on the same line.
-/

namespace CallerFirst.Java

structure Source where
  text : List Char
  lineStarts : List Nat
  tokens : List Token

namespace Source

def ofTokens (text : List Char) (tokens : List Token) : Source :=
  { text, lineStarts := Text.lineStarts text, tokens }

def offset (s : Source) (t : Token) : Except Fault Nat :=
  match s.lineStarts[t.position.line - 1]? with
  | some start => .ok (start + t.position.column - 1)
  | none => .error .noSuchLine

def offsetAt (s : Source) (index : Nat) : Except Fault Nat :=
  s.offset (s.tokens.getD index default)

def endAt (s : Source) (index : Nat) : Except Fault Nat := do
  let t := s.tokens.getD index default
  return (← s.offset t) + t.text.length

/-- Length of a comment at the front of a text that belongs to the line: up to the end of the line,
or up to its closing mark if that comes before the line ends. -/
def commentLength? (text : List Char) : Option Nat :=
  match text with
  | '/' :: '/' :: _ =>
    let line := text.takeWhile (· != '\n')
    some (if line.getLast? == some '\r' then line.length - 1 else line.length)
  | '/' :: '*' :: rest =>
    match Text.find? ['*', '/'] rest with
    | some n => if (rest.take n).contains '\n' then none else some (n + 4)
    | none => none
  | _ => none

/-- Moves an offset over blanks and a comment behind it. -/
def extendOverComment (text : List Char) (stop : Nat) : Nat :=
  let rest := text.drop stop
  let blanks := (rest.takeWhile fun c => c == ' ' || c == '\t').length
  match commentLength? (rest.drop blanks) with
  | some n => stop + blanks + n
  | none => stop

def span (s : Source) (run : Run) : Except Fault (Nat × Nat) := do
  let start ← s.offsetAt run.first
  let stop ← s.endAt run.last
  return (start, extendOverComment s.text stop)

end Source

end CallerFirst.Java
