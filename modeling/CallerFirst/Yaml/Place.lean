/-!
# Places in a text

What is ahead, how many characters are behind, and on which line and in which column the place is.
Columns decide how a text is nested; a byte order mark takes none.
-/

namespace CallerFirst.Yaml

structure Place where
  rest : List Char
  index : Nat := 0
  line : Nat := 0
  column : Nat := 0

def byteOrderMark : Char := '\ufeff'

def isBreak (c : Char) : Bool :=
  c == '\n' || c == '\x85' || c == '\u2028' || c == '\u2029'

def breakChar (c : Char) : Char :=
  if c == '\x85' then '\n' else c

def isSpace (c : Char) : Bool :=
  c == ' ' || c == '\t' || isBreak c

def aheadIs (kind : Char → Bool) : List Char → Bool
  | [] => true
  | c :: _ => kind c

def spaceAhead (rest : List Char) : Bool :=
  aheadIs isSpace rest

def gapAhead (rest : List Char) : Bool :=
  aheadIs (fun c => c == ' ' || isBreak c) rest

def breakAhead (rest : List Char) : Bool :=
  aheadIs isBreak rest

/-- A mark that starts or ends a document, with blank space behind it. -/
def markAhead (mark : Char) (rest : List Char) : Bool :=
  [mark, mark, mark].isPrefixOf rest && spaceAhead (rest.drop 3)

/-- A document starts or ends here, if a line does. -/
def documentAhead (rest : List Char) : Bool :=
  markAhead '-' rest || markAhead '.' rest

namespace Place

def step (p : Place) : Place :=
  match p.rest with
  | [] => p
  | c :: rest =>
    if isBreak c then ⟨rest, p.index + 1, p.line + 1, 0⟩
    else if c == byteOrderMark then ⟨rest, p.index + 1, p.line, p.column⟩
    else ⟨rest, p.index + 1, p.line, p.column + 1⟩

def advance : Nat → Place → Place
  | 0, p => p
  | n + 1, p => advance n p.step

def skip (kind : Char → Bool) (p : Place) : Place :=
  p.advance (p.rest.takeWhile kind).length

def spaces (p : Place) : Place :=
  p.skip (· == ' ')

def atMark (mark : Char) (p : Place) : Bool :=
  p.column == 0 && markAhead mark p.rest

end Place

/-- Behind spaces, comments and line breaks, and whether a line was ended. -/
def skipGap (inComment ended : Bool) : List Char → Place → Bool × Place
  | [], p => (ended, p)
  | c :: rest, p =>
    if isBreak c then skipGap false true rest p.step
    else if inComment || c == ' ' then skipGap inComment ended rest p.step
    else if c == '#' then skipGap true ended rest p.step
    else (ended, p)

structure Fold where
  breaks : List Char
  /-- Right behind a break a document starts or ends. -/
  atDocument : Bool
  stop : Place

def skipFold (isBlank : Char → Bool) : List Char → Place → Fold
  | [], p => ⟨[], false, p⟩
  | c :: rest, p =>
    if isBreak c then
      if documentAhead rest then ⟨[breakChar c], true, p.step⟩
      else
        let fold := skipFold isBlank rest p.step
        { fold with breaks := breakChar c :: fold.breaks }
    else if isBlank c then skipFold isBlank rest p.step
    else ⟨[], false, p⟩

namespace Place

def gap (p : Place) : Bool × Place :=
  skipGap false false p.rest p

def fold (isBlank : Char → Bool) (p : Place) : Fold :=
  skipFold isBlank p.rest p

end Place

/-- What line breaks in a scalar count as: a single one is a space, and of more the first does not
count, unless it is a separator of its own. -/
def foldBreaks : List Char → List Char
  | ['\n'] => [' ']
  | '\n' :: more => more
  | breaks => breaks

end CallerFirst.Yaml
