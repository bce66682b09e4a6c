import CallerFirst.Yaml.Text

/-!
# Block scalars

Texts that go on as long as lines stand in their column. A literal one keeps its line breaks, a
folded one joins lines; the head says what becomes of the breaks at its end.
-/

namespace CallerFirst.Yaml

namespace Block

/-- What becomes of the line breaks at the end of a block. -/
inductive Chomp where
  | strip
  /-- The first is kept. -/
  | clip
  | keep
  deriving DecidableEq

structure Head where
  chomp : Chomp := .clip
  /-- How much further than its surroundings the block is indented. -/
  indent : Option Nat := none

def chomp? : List Char → Option Chomp
  | '+' :: _ => some .keep
  | '-' :: _ => some .strip
  | _ => none

/-- A digit from one to nine; nothing is indented by zero. -/
def indent? : List Char → Except Fault (Option Nat)
  | c :: _ =>
    if c == '0' then .error .malformed
    else .ok (if c.isDigit then some (c.toNat - '0'.toNat) else none)
  | [] => .ok none

/-- The marks of a block, in either order, and the place behind them. -/
def head (p : Place) : Except Fault (Head × Place) :=
  match chomp? p.rest with
  | some chomp => do
    match ← indent? p.step.rest with
    | some indent => return ({ chomp, indent }, p.advance 2)
    | none => return ({ chomp }, p.step)
  | none => do
    match ← indent? p.rest with
    | none => return ({}, p)
    | some indent =>
      match chomp? p.step.rest with
      | some chomp => return ({ chomp, indent }, p.advance 2)
      | none => return ({ indent }, p.step)

end Block

/-- The rest of a line that may hold a comment and nothing else, and the place behind it. -/
def lineEnd (p : Place) : Except Fault Place :=
  let next := p.spaces
  let next := if next.rest.head? == some '#' then next.skip (!isBreak ·) else next
  if breakAhead next.rest then .ok next.step else .error .malformed

/-- Empty lines in front of a block: their breaks, and the widest column. -/
def leadingLines (widest : Nat) : List Char → Place → List Char × Nat × Place
  | [], p => ([], widest, p)
  | c :: rest, p =>
    if isBreak c then
      let (breaks, widest, stop) := leadingLines widest rest p.step
      (breakChar c :: breaks, widest, stop)
    else if c == ' ' then leadingLines (max widest p.step.column) rest p.step
    else ([], widest, p)

def blockBreaks (column : Nat) : List Char → Place → List Char × Place
  | [], p => ([], p)
  | c :: rest, p =>
    if isBreak c then
      let (breaks, stop) := blockBreaks column rest p.step
      (breakChar c :: breaks, stop)
    else if c == ' ' && p.column < column then blockBreaks column rest p.step
    else ([], p)

/-- The lines of a block: their text, the break behind the last of them, and the empty lines that
follow. -/
structure Lines where
  text : List Char := []
  ending : List Char := []
  empty : List Char
  stop : Place

def startsBlank : List Char → Bool
  | c :: _ => isBlankInQuotes c
  | [] => false

/-- What divides two lines of a folded block: nothing if empty lines do. Lines that start blank are
not joined. -/
def foldLine (folded : Bool) (ending empty line next : List Char) : List Char :=
  if folded && ending == ['\n'] && !startsBlank line && !startsBlank next then
    if empty.isEmpty then [' '] else []
  else ending

def blockLines (folded : Bool) (column : Nat) : Nat → List Char → Place → Lines
  | 0, empty, p => { empty, stop := p }
  | fuel + 1, empty, p =>
    if p.column != column || p.rest.isEmpty then { empty, stop := p }
    else
      let line := p.rest.takeWhile (!isBreak ·)
      let behind := p.advance line.length
      let ending := (behind.rest.take 1).map breakChar
      let (more, next) := blockBreaks column behind.step.rest behind.step
      let lines := blockLines folded column fuel more next
      if next.column != column || next.rest.isEmpty then
        { text := empty ++ line, ending, empty := more, stop := next }
      else
        { lines with text := empty ++ line ++ foldLine folded ending more line next.rest ++ lines.text }

/-- A block scalar behind its mark, in surroundings that are indented by `floor`. -/
def blockText (folded : Bool) (floor : Nat) (p : Place) : Except Fault Reading := do
  let (head, p) ← Block.head p
  if !gapAhead p.rest then throw .malformed
  let start ← lineEnd p
  let least := max floor 1
  let (empty, column, start) :=
    match head.indent with
    | some indent =>
      let column := least + indent - 1
      let (empty, start) := blockBreaks column start.rest start
      (empty, column, start)
    | none =>
      let (empty, widest, start) := leadingLines 0 start.rest start
      (empty, max least widest, start)
  let lines := blockLines folded column (start.rest.length + 1) empty start
  let tail :=
    match head.chomp with
    | .strip => []
    | .clip => lines.ending
    | .keep => lines.ending ++ lines.empty
  return { text := lines.text ++ tail, stop := lines.stop }

end CallerFirst.Yaml
