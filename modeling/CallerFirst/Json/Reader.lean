import CallerFirst.Config.Value
import CallerFirst.Text.Hexadecimal
import CallerFirst.Text.Surrogate

/-!
# Reading JSON

Members of an object keep their order. Numbers without point and power are whole numbers; the words
for infinities and for no number are read too.
-/

namespace CallerFirst.Json

def isBlank (c : Char) : Bool :=
  c == ' ' || c == '\n' || c == '\r' || c == '\t'

def skipBlanks (text : List Char) : List Char :=
  text.dropWhile isBlank

def codeUnit? (text : List Char) : Option Nat :=
  if text.length < 4 then none else Text.hexValue? (text.take 4)

def letterEscapes : List (Char × Char) :=
  [('"', '"'), ('\\', '\\'), ('/', '/'), ('b', '\x08'), ('f', '\x0c'), ('n', '\n'), ('r', '\r'),
   ('t', '\t')]

/-- The character of an escape, for the text behind its backslash, whether it stands for half of a
surrogate pair, and the text behind it. -/
def escape? : List Char → Option (Char × Bool × List Char)
  | 'u' :: rest => do
    let high ← codeUnit? rest
    let rest := rest.drop 4
    match rest with
    | '\\' :: 'u' :: more =>
      match Text.isHighHalf high, (codeUnit? more).filter Text.isLowHalf with
      | true, some low => return (Text.charOfPair high low, false, more.drop 4)
      | _, _ => return (Text.charOfCode high, Text.isHalf high, rest)
    | _ => return (Text.charOfCode high, Text.isHalf high, rest)
  | c :: rest => (letterEscapes.lookup c).map (·, false, rest)
  | [] => none

/-- A text behind its first quote; `read` is what came before, in reverse, and `halves` says that a
half of a pair is in it. -/
def textFrom : Nat → (halves : Bool) → (read : List Char) → List Char → Option (Value × List Char)
  | 0, _, _, _ | _, _, _, [] => none
  | fuel + 1, halves, read, c :: rest =>
    if c == '"' then
      let s := String.ofList read.reverse
      some (if halves then .unpaired s else .text s, rest)
    else if c == '\\' then do
      let (c, isHalf, rest) ← escape? rest
      textFrom fuel (halves || isHalf) (c :: read) rest
    else textFrom fuel halves (c :: read) rest

def text? : List Char → Option (Value × List Char)
  | '"' :: rest => textFrom (rest.length + 1) false [] rest
  | _ => none

def isNumberChar (c : Char) : Bool :=
  c.isDigit || c == '-' || c == '+' || c == '.' || c == 'e' || c == 'E'

def number? (text : List Char) : Option Value :=
  let (negative, digits) := Binary64.readSign text
  if digits.isEmpty then none
  else if digits.all Char.isDigit then
    let n : Nat := Binary64.digitsValue digits
    some (.int (if negative then -n else n))
  else (Binary64.ofText? text).map .float

mutual
def valueFrom : Nat → List Char → Option (Value × List Char)
  | 0, _ => none
  | fuel + 1, text =>
    match skipBlanks text with
    | '"' :: rest => text? ('"' :: rest)
    | '[' :: rest => do
      let (items, rest) ← itemsFrom fuel [] (skipBlanks rest)
      return (.list items, rest)
    | '\x7b' :: rest => do
      let (members, rest) ← membersFrom fuel [] (skipBlanks rest)
      return (.map members, rest)
    | 't' :: 'r' :: 'u' :: 'e' :: rest => some (.bool true, rest)
    | 'f' :: 'a' :: 'l' :: 's' :: 'e' :: rest => some (.bool false, rest)
    | 'n' :: 'u' :: 'l' :: 'l' :: rest => some (.null, rest)
    | 'N' :: 'a' :: 'N' :: rest => some (.float .notANumber, rest)
    | 'I' :: 'n' :: 'f' :: 'i' :: 'n' :: 'i' :: 't' :: 'y' :: rest =>
      some (.float (.infinite false), rest)
    | '-' :: 'I' :: 'n' :: 'f' :: 'i' :: 'n' :: 'i' :: 't' :: 'y' :: rest =>
      some (.float (.infinite true), rest)
    | text => (number? (text.takeWhile isNumberChar)).map (·, text.dropWhile isNumberChar)
/-- Items of a list, up to its bracket; `read` are those before, in reverse. -/
def itemsFrom : Nat → (read : List Value) → List Char → Option (List Value × List Char)
  | 0, _, _ => none
  | fuel + 1, read, text =>
    match text with
    | ']' :: rest => some (read.reverse, rest)
    | text => do
      let (item, rest) ← valueFrom fuel text
      match skipBlanks rest with
      | ',' :: rest => itemsFrom fuel (item :: read) (skipBlanks rest)
      | rest => itemsFrom fuel (item :: read) rest
def membersFrom :
    Nat → (read : List (Value × Value)) → List Char → Option (List (Value × Value) × List Char)
  | 0, _, _ => none
  | fuel + 1, read, text =>
    match text with
    | '\x7d' :: rest => some (read.reverse, rest)
    | text => do
      let (key, rest) ← text? text
      match skipBlanks rest with
      | ':' :: rest => do
        let (value, rest) ← valueFrom fuel rest
        let read := (key, value) :: read
        match skipBlanks rest with
        | ',' :: rest => membersFrom fuel read (skipBlanks rest)
        | rest => membersFrom fuel read rest
      | _ => none
end

/-- The value of a text. Every step takes a character, so the length bounds the work. -/
def read? (text : String) : Option Value := do
  let chars := text.toList
  let (value, rest) ← valueFrom (2 * chars.length + 2) chars
  if (skipBlanks rest).isEmpty then return value else none

end CallerFirst.Json
