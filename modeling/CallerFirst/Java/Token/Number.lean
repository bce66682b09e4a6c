/-!
# Numeric literals

Lengths of numeric literals at the front of a text. A number that the end of the text cuts off,
where another digit or its mark would have to be looked at, has no length.
-/

namespace CallerFirst.Java

namespace Number

inductive Fault where
  /-- The text ends where the literal goes on. -/
  | cutOff
  /-- A hexadecimal fraction has no exponent; `length` characters were read. -/
  | missingExponent (length : Nat)

def isDecimal (c : Char) : Bool := c.isDigit

def isHexadecimal (c : Char) : Bool :=
  c.isDigit || ('a' ≤ c && c ≤ 'f') || ('A' ≤ c && c ≤ 'F')

def isOctal (c : Char) : Bool := '0' ≤ c && c ≤ '7'

def isBinary (c : Char) : Bool := c == '0' || c == '1'

/-- Extends a run of `taken` digits. Underscores count only when a digit follows, and a mark for
long numbers after the run takes one more character with it, even where that is an underscore. -/
def digitRun (isDigit : Char → Bool) : Nat → Nat → List Char → Nat
  | taken, _, [] => taken
  | taken, pending, c :: rest =>
    if isDigit c then digitRun isDigit (taken + pending + 1) 0 rest
    else if c == '_' then digitRun isDigit taken (pending + 1) rest
    else if c == 'l' || c == 'L' then taken + 1
    else taken

def digits (isDigit : Char → Bool) (text : List Char) : Except Fault Nat :=
  if text.isEmpty then .error .cutOff else .ok (digitRun isDigit 0 0 text)

def follows (marks : String) (length : Nat) (text : List Char) : Bool :=
  (text.drop length).head?.any marks.toList.contains

def skip (marks : String) (length : Nat) (text : List Char) : Nat :=
  if follows marks length text then length + 1 else length

def extend (isDigit : Char → Bool) (length : Nat) (text : List Char) : Except Fault Nat := do
  return length + (← digits isDigit (text.drop length))

def decimal (text : List Char) : Except Fault Nat := do
  let whole ← digits isDecimal text
  if !follows ".eEfFdD" whole text then return whole
  let fraction ← if follows "." whole text then extend isDecimal (whole + 1) text else pure whole
  let exponent ←
    if follows "eE" fraction text then extend isDecimal (skip "-+" (fraction + 1) text) text
    else pure fraction
  return skip "fFdD" exponent text

/-- Hexadecimal whole number or fraction, base mark included. A fraction needs an exponent. -/
def hexadecimal (text : List Char) : Except Fault Nat := do
  let whole ← extend isHexadecimal 2 text
  if !follows ".pP" whole text then return whole
  let fraction ← if follows "." whole text then extend isHexadecimal (whole + 1) text else pure whole
  if !follows "pP" fraction text then throw (.missingExponent fraction)
  let exponent ← extend isDecimal (skip "-+" (fraction + 1) text) text
  return skip "fFdD" exponent text

def literal (text : List Char) : Except Fault Nat :=
  match text with
  | ['0'] => .error .cutOff
  | '0' :: c :: _ =>
    if c == 'x' || c == 'X' then hexadecimal text
    else if c == 'b' || c == 'B' then extend isBinary 2 text
    else if isOctal c then extend isOctal 1 text
    else decimal text
  | _ => decimal text

end Number

end CallerFirst.Java
