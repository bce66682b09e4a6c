import CallerFirst.Text.Hexadecimal
import CallerFirst.Yaml.Fault
import CallerFirst.Yaml.Place

/-!
# Texts of scalars

Plain scalars end where something else starts; quoted ones at their quote. Either may go over
several lines, which are joined.
-/

namespace CallerFirst.Yaml

def isIndicator (c : Char) : Bool :=
  "-?:,[]\x7b\x7d#&*!|>'\"%@`".toList.contains c

def isFlowIndicator (c : Char) : Bool :=
  ",[]\x7b\x7d".toList.contains c

def startsPlain (inFlow : Bool) : List Char → Bool
  | [] => false
  | c :: rest =>
    if isSpace c then false
    else if isIndicator c then
      !spaceAhead rest && (c == '-' || (!inFlow && (c == '?' || c == ':')))
    else true

def endsPlain (inFlow : Bool) (c : Char) (rest : List Char) : Bool :=
  isSpace c || (c == ':' && (spaceAhead rest || (inFlow && rest.head?.any isFlowIndicator))) ||
    (inFlow && (isFlowIndicator c || c == '?'))

def chunkLength (inFlow : Bool) : List Char → Nat
  | [] => 0
  | c :: rest => if endsPlain inFlow c rest then 0 else chunkLength inFlow rest + 1

structure Reading where
  text : List Char
  halves : Bool := false
  /-- A line was ended behind the text. -/
  ended : Bool := false
  stop : Place

namespace Reading

def behind (r : Reading) (text : List Char) : Reading :=
  { r with text := text ++ r.text }

end Reading

def plainGap (p : Place) : Reading :=
  let next := p.spaces
  if next.rest.head?.any isBreak then
    let fold := next.fold (· == ' ')
    { text := if fold.atDocument then [] else foldBreaks fold.breaks, ended := true, stop := fold.stop }
  else { text := p.rest.takeWhile (· == ' '), stop := next }

/-- A plain scalar; outside flow collections its lines stand at column `floor` or behind it. -/
def plainText (inFlow : Bool) (floor : Nat) : Nat → Place → Reading
  | 0, p => { text := [], stop := p }
  | fuel + 1, p =>
    let length := chunkLength inFlow p.rest
    let chunk := p.rest.take length
    let gap := plainGap (p.advance length)
    let next := gap.stop
    if gap.text.isEmpty || next.rest.head? == some '#' || chunkLength inFlow next.rest == 0 ||
        (!inFlow && next.column < floor) then { gap with text := chunk }
    else (plainText inFlow floor fuel next).behind (chunk ++ gap.text)

def isBlankInQuotes (c : Char) : Bool :=
  c == ' ' || c == '\t'

/-- Line breaks in quotes; no document starts or ends there. -/
def quotedBreaks (p : Place) : Except Fault Fold :=
  let fold := p.fold isBlankInQuotes
  if fold.atDocument then .error .malformed else .ok fold

def quotedGap (p : Place) : Except Fault Reading :=
  let next := p.skip isBlankInQuotes
  if next.rest.head?.any isBreak then do
    let fold ← quotedBreaks next
    return { text := foldBreaks fold.breaks, stop := fold.stop }
  else return { text := p.rest.takeWhile isBlankInQuotes, stop := next }

/-- Text in single quotes, behind the first of them; a quote in it stands twice. -/
def singleQuoted : Nat → Place → Except Fault Reading
  | 0, _ => .error .malformed
  | fuel + 1, p =>
    match p.rest with
    | [] => .error .malformed
    | '\'' :: '\'' :: _ => do return (← singleQuoted fuel (p.advance 2)).behind ['\'']
    | '\'' :: _ => .ok { text := [], stop := p.step }
    | c :: _ =>
      if isSpace c then do
        let gap ← quotedGap p
        return (← singleQuoted fuel gap.stop).behind gap.text
      else do return (← singleQuoted fuel p.step).behind [c]

def escapes : List (Char × Char) :=
  [('0', '\x00'), ('a', '\x07'), ('b', '\x08'), ('t', '\t'), ('\t', '\t'), ('n', '\n'),
   ('v', '\x0b'), ('f', '\x0c'), ('r', '\r'), ('e', '\x1b'), (' ', ' '), ('"', '"'), ('\\', '\\'),
   ('/', '/'), ('N', '\x85'), ('_', '\xa0'), ('L', '\u2028'), ('P', '\u2029')]

def codeLength? (c : Char) : Option Nat :=
  [('x', 2), ('u', 4), ('U', 8)].lookup c

def charOf (code : Nat) : Except Fault Char :=
  if code ≤ 0x10ffff then .ok (Text.charOfCode code)
  else if code ≤ 0x7fffffff then .error .noSuchCharacter
  else .error .codeOverflow

/-- The character of an escape, whether it stands for half of a surrogate pair, and the length of the
escape, for the text behind its backslash. -/
def escape : List Char → Except Fault (Char × Bool × Nat)
  | [] => .error .malformed
  | c :: rest =>
    match escapes.lookup c, codeLength? c with
    | some e, _ => .ok (e, false, 1)
    | none, some n =>
      match if rest.length < n then none else Text.hexValue? (rest.take n) with
      | some code => do return (← charOf code, Text.isHalf code, n + 1)
      | none => .error .malformed
    | none, none => .error .malformed

def doubleQuoted : Nat → Place → Except Fault Reading
  | 0, _ => .error .malformed
  | fuel + 1, p =>
    match p.rest with
    | [] => .error .malformed
    | '"' :: _ => .ok { text := [], stop := p.step }
    | '\\' :: rest =>
      if rest.head?.any isBreak then do
        -- a break behind a backslash joins the lines without a space
        let fold ← quotedBreaks p.step
        return (← doubleQuoted fuel fold.stop).behind (fold.breaks.drop 1)
      else do
        let (c, isHalf, length) ← escape rest
        let r ← doubleQuoted fuel (p.advance (length + 1))
        return { r.behind [c] with halves := isHalf || r.halves }
    | c :: _ =>
      if isSpace c then do
        let gap ← quotedGap p
        return (← doubleQuoted fuel gap.stop).behind gap.text
      else do return (← doubleQuoted fuel p.step).behind [c]

end CallerFirst.Yaml
