import CallerFirst.Yaml.Block
import CallerFirst.Yaml.Token

/-!
# Cutting a text into tokens

Block collections open where a key or an entry stands further to the right than those around it, and
close where a line starts further to the left. A node turns out to be a key only when a colon follows
it on its line, so the lexer remembers where the last node started that may be one.
-/

namespace CallerFirst.Yaml

/-- A node that is a key if a colon follows. -/
structure PendingKey where
  depth : Nat
  /-- Number of tokens in front of it. -/
  number : Nat
  /-- Nothing else than a key can stand there. -/
  required : Bool
  start : Place

structure Lexer where
  place : Place
  /-- Tokens so far, the last one first. -/
  tokens : List Token := []
  /-- Columns of the open block collections, the innermost first. -/
  columns : List Nat := []
  depth : Nat := 0
  mayKey : Bool := true
  /-- At most one for each depth. -/
  pending : List PendingKey := []

/-- A key has to be followed by its colon within so many characters. -/
def keyReach : Nat := 1024

namespace PendingKey

def isOutOfReach (k : PendingKey) (p : Place) : Bool :=
  k.start.line != p.line || k.start.index + keyReach < p.index

end PendingKey

namespace Lexer

def inFlow (l : Lexer) : Bool :=
  l.depth != 0

/-- The least column that belongs to the innermost block collection's entries. -/
def floor (l : Lexer) : Nat :=
  l.columns.head?.elim 0 (· + 1)

def push (l : Lexer) (token : Token) : Lexer :=
  { l with tokens := token :: l.tokens }

def take (l : Lexer) (length : Nat) (token : Token) : Lexer :=
  { l.push token with place := l.place.advance length }

def close : Lexer → (kept : List Nat) → Nat → Lexer
  | l, kept, 0 => { l with columns := kept }
  | l, kept, n + 1 => (l.push .blockEnd).close kept n

/-- Closes the block collections that stand further to the right; flow collections ignore columns. -/
def closeBehind (l : Lexer) (column : Nat) : Lexer :=
  if l.inFlow then l
  else l.close (l.columns.dropWhile (column < ·)) (l.columns.takeWhile (column < ·)).length

def closeAll (l : Lexer) : Lexer :=
  if l.inFlow then l else l.close [] l.columns.length

/-- Opens a block collection at a column that is further to the right than those around it. -/
def opens (l : Lexer) (column : Nat) : Bool :=
  !l.inFlow && l.floor ≤ column

def openAt (l : Lexer) (column : Nat) (token : Token) : Lexer :=
  if l.opens column then { l.push token with columns := column :: l.columns } else l

def dropUnreachable (l : Lexer) : Except Fault Lexer :=
  let (lost, kept) := l.pending.partition (·.isOutOfReach l.place)
  if lost.any (·.required) then .error .malformed else .ok { l with pending := kept }

def dropKey (l : Lexer) : Except Fault Lexer :=
  let (lost, kept) := l.pending.partition (·.depth == l.depth)
  if lost.any (·.required) then .error .malformed else .ok { l with pending := kept }

/-- Remembers that the node that starts here may be a key. -/
def noteKey (l : Lexer) : Except Fault Lexer :=
  if l.mayKey then do
    let l ← l.dropKey
    let key : PendingKey :=
      { depth := l.depth
        number := l.tokens.length
        required := !l.inFlow && l.columns.head? == some l.place.column
        start := l.place }
    return { l with pending := key :: l.pending }
  else .ok l

def insert (l : Lexer) (number : Nat) (tokens : List Token) : Lexer :=
  let behind := l.tokens.length - number
  { l with tokens := l.tokens.take behind ++ tokens.reverse ++ l.tokens.drop behind }

/-! ### Single tokens -/

/-- A node that may be a key: a scalar, an alias, or what stands in front of a node. -/
def node (l : Lexer) (read : Place → Except Fault (Token × Bool × Place)) : Except Fault Lexer := do
  let l ← l.noteKey
  let (token, mayKey, stop) ← read l.place
  return { l.push token with mayKey, place := stop }

def flowStart (l : Lexer) (token : Token) : Except Fault Lexer := do
  let l ← l.noteKey
  return { l.take 1 token with depth := l.depth + 1, mayKey := true }

def flowEnd (l : Lexer) (token : Token) : Except Fault Lexer := do
  if !l.inFlow then throw .malformed
  let l ← l.dropKey
  return { l.take 1 token with depth := l.depth - 1, mayKey := false }

def comma (l : Lexer) : Except Fault Lexer := do
  let l ← l.dropKey
  return { l.take 1 .comma with mayKey := true }

def entry (l : Lexer) : Except Fault Lexer := do
  if !l.inFlow && !l.mayKey then throw .malformed
  let l ← (l.openAt l.place.column .blockList).dropKey
  return { l.take 1 .entry with mayKey := true }

def explicitKey (l : Lexer) : Except Fault Lexer := do
  if !l.inFlow && !l.mayKey then throw .malformed
  let l ← (l.openAt l.place.column .blockMap).dropKey
  return { l.take 1 .key with mayKey := !l.inFlow }

/-- A colon: the pending node is a key, or the value of an explicit key follows. -/
def colon (l : Lexer) : Except Fault Lexer :=
  match l.pending.find? (·.depth == l.depth) with
  | some key =>
    let l := { l with pending := l.pending.filter (·.depth != l.depth) }
    let column := key.start.column
    let l :=
      if l.opens column then
        { l.insert key.number [.blockMap, .key] with columns := column :: l.columns }
      else l.insert key.number [.key]
    .ok { l.take 1 .value with mayKey := false }
  | none => do
    if !l.inFlow && !l.mayKey then throw .malformed
    let l ← (l.openAt l.place.column .blockMap).dropKey
    return { l.take 1 .value with mayKey := !l.inFlow }

/-- A mark or a directive, in front of which everything is closed. -/
def boundary (l : Lexer) (read : Place → Except Fault (Token × Place)) : Except Fault Lexer := do
  let l ← l.closeAll.dropKey
  let (token, stop) ← read l.place
  return { l.push token with mayKey := false, place := stop }

/-! ### Nodes -/

def readAlias (p : Place) : Except Fault (Token × Bool × Place) := do
  let (name, stop) ← anchorName p.step
  return (.alias name, false, stop)

def readAnchor (p : Place) : Except Fault (Token × Bool × Place) := do
  let (name, stop) ← anchorName p.step
  return (.anchor name, false, stop)

def readTag (p : Place) : Except Fault (Token × Bool × Place) := do
  let (tag, stop) ← tagText p
  return (.tag tag, false, stop)

def readQuoted (quoted : Nat → Place → Except Fault Reading) (p : Place) :
    Except Fault (Token × Bool × Place) := do
  let r ← quoted p.rest.length p.step
  return (.scalar ⟨r.text, r.halves⟩ false, false, r.stop)

def readPlain (inFlow : Bool) (floor : Nat) (p : Place) : Except Fault (Token × Bool × Place) :=
  let r := plainText inFlow floor p.rest.length p
  .ok (.scalar ⟨r.text, false⟩ true, r.ended, r.stop)

def block (l : Lexer) (folded : Bool) : Except Fault Lexer := do
  let l ← l.dropKey
  let r ← blockText folded l.floor l.place.step
  return { l.push (.scalar ⟨r.text, false⟩ false) with mayKey := true, place := r.stop }

/-! ### All tokens -/

def skipGap (l : Lexer) : Except Fault Lexer := do
  let (ended, place) := l.place.gap
  let l ← { l with place, mayKey := l.mayKey || (ended && !l.inFlow) }.dropUnreachable
  return l.closeBehind place.column

def tokenAt (l : Lexer) (c : Char) (rest : List Char) : Except Fault Lexer :=
  let marks := l.inFlow || spaceAhead rest
  if c == '%' && l.place.column == 0 then
    l.boundary fun p => do
      let (d, stop) ← directive p.step
      return (.directive d, stop)
  else if l.place.atMark '-' then l.boundary fun p => .ok (.documentStart, p.advance 3)
  else if l.place.atMark '.' then l.boundary fun p => .ok (.documentEnd, p.advance 3)
  else if c == '[' then l.flowStart .flowList
  else if c == '\x7b' then l.flowStart .flowMap
  else if c == ']' then l.flowEnd .flowListEnd
  else if c == '\x7d' then l.flowEnd .flowMapEnd
  else if c == ',' then l.comma
  else if c == '-' && spaceAhead rest then l.entry
  else if c == '?' && marks then l.explicitKey
  else if c == ':' && marks then l.colon
  else if c == '*' then l.node readAlias
  else if c == '&' then l.node readAnchor
  else if c == '!' then l.node readTag
  else if c == '|' && !l.inFlow then l.block false
  else if c == '>' && !l.inFlow then l.block true
  else if c == '\'' then l.node (readQuoted singleQuoted)
  else if c == '"' then l.node (readQuoted doubleQuoted)
  else if startsPlain l.inFlow (c :: rest) then l.node (readPlain l.inFlow l.floor)
  else .error .malformed

def next (l : Lexer) : Except Fault (Lexer × Bool) := do
  let l ← l.skipGap
  match l.place.rest with
  | [] =>
    let l ← l.closeAll.dropKey
    return (l.push .streamEnd, true)
  | c :: rest => return (← l.tokenAt c rest, false)

/-- Tokens that no colon can change any more. -/
def settled (l : Lexer) : List Token :=
  let keys := l.pending.filter (!·.isOutOfReach l.place)
  l.tokens.reverse.take (keys.foldl (fun n k => min n k.number) l.tokens.length)

end Lexer

/-- The tokens of a text, up to what cannot be cut. -/
structure Tokens where
  tokens : List Token
  fault : Option Fault := none

namespace Lexer

/-- Cuts off tokens until the text is over. Every token takes a character. -/
def run : Nat → Lexer → Tokens
  | 0, l => { tokens := l.settled, fault := some .malformed }
  | fuel + 1, l =>
    match l.next with
    | .error fault => { tokens := l.settled, fault := some fault }
    | .ok (l, true) => { tokens := l.tokens.reverse }
    | .ok (l, false) => run fuel l

end Lexer

def Tokens.ofText (text : List Char) : Tokens :=
  let start : Place := { rest := text }
  let place := if text.head? == some byteOrderMark then start.step else start
  Lexer.run (text.length + 1) { place }

end CallerFirst.Yaml
