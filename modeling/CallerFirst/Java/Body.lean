import CallerFirst.Java.Code
import CallerFirst.Java.Token
import CallerFirst.Malformed
import CallerFirst.Text.Lines

/-!
# Members of a type in its tokens

`Body.braces` finds the body of a type among the tokens of a unit, and `Body.ofTokens` cuts it into
runs, one for each enum constant and member. A run is an interval of token indices, both ends
included.
-/

namespace CallerFirst.Java

structure Run where
  first : Nat
  last : Nat
  deriving DecidableEq

structure Body where
  openIndex : Nat
  closeIndex : Nat
  constants : List Run
  /-- Index of the semicolon behind the constants. -/
  terminator : Option Nat
  members : List Run

namespace Body

/-- Index of the brace that closes the one the tokens start with. -/
def closing? (index depth : Nat) : List Token → Option Nat
  | [] => none
  | t :: rest =>
    if t.text == "\x7b" then closing? (index + 1) (depth + 1) rest
    else if t.text == "\x7d" then
      if depth ≤ 1 then some index else closing? (index + 1) (depth - 1) rest
    else closing? (index + 1) depth rest

structure Nesting where
  parentheses : Int := 0
  braces : Int := 0
  hasValue : Bool := false
  previous : String := ""

/-- Index of the token that ends a member: a semicolon, or the brace that closes its first block,
unless the member holds a value. -/
def memberEnd? (inAnnotationType : Bool) (index : Nat) (n : Nesting) : List Token → Option Nat
  | [] => none
  | t :: rest =>
    let goOn (n : Nesting) := memberEnd? inAnnotationType (index + 1) { n with previous := t.text } rest
    if t.text == "(" || t.text == "[" then goOn { n with parentheses := n.parentheses + 1 }
    else if t.text == ")" || t.text == "]" then goOn { n with parentheses := n.parentheses - 1 }
    else if t.text == "\x7b" then goOn { n with braces := n.braces + 1 }
    else if t.text == "\x7d" then
      if n.braces - 1 = 0 ∧ n.parentheses = 0 ∧ !n.hasValue then some index
      else goOn { n with braces := n.braces - 1 }
    else if n.parentheses = 0 ∧ n.braces = 0 then
      if t.text == ";" then some index
      else if t.text == "=" || (inAnnotationType && t.text == "default" && n.previous == ")") then
        goOn { n with hasValue := true }
      else goOn n
    else goOn n

def semicolons (tokens : List Token) : Nat :=
  (tokens.takeWhile (·.text == ";")).length

/-- Runs of members in tokens that start at `index`. Semicolons behind a member belong to it. Every
round takes a token, so their number is enough fuel. -/
def memberRuns (inAnnotationType : Bool) : Nat → Nat → List Token → Except Malformed (List Run)
  | 0, _, _ | _ + 1, _, [] => .ok []
  | fuel + 1, index, t :: rest =>
    if t.text == ";" then memberRuns inAnnotationType fuel (index + 1) rest
    else
      match memberEnd? inAnnotationType index {} (t :: rest) with
      | none => .error (.notTerminated t.position.line)
      | some stop => do
        let length := stop + 1 - index
        let last := stop + semicolons ((t :: rest).drop length)
        let more ← memberRuns inAnnotationType fuel (last + 1) ((t :: rest).drop (last + 1 - index))
        return ⟨index, last⟩ :: more

/-- Index of the last token of an enum constant: brackets are closed and a comma, a semicolon or the
end of the body follows. -/
def constantEnd (index : Nat) (depth : Int) : List Token → Nat
  | [] => index
  | t :: rest =>
    let depth :=
      if ["(", "\x7b", "["].contains t.text then depth + 1
      else if [")", "\x7d", "]"].contains t.text then depth - 1
      else depth
    if depth = 0 ∧ rest.head?.all (fun u => u.text == "," || u.text == ";") then index
    else constantEnd (index + 1) depth rest

/-- Runs of enum constants, the index behind them, and the semicolon that ends them. -/
def constantRuns : Nat → Nat → List Token → List Run × Nat × Option Nat
  | 0, index, _ | _ + 1, index, [] => ([], index, none)
  | fuel + 1, index, t :: rest =>
    if t.text == ";" then ([], index + 1, some index)
    else if t.text == "," then constantRuns fuel (index + 1) rest
    else
      let last := constantEnd index 0 (t :: rest)
      let (runs, stop, terminator) :=
        constantRuns fuel (last + 1) ((t :: rest).drop (last + 1 - index))
      (⟨index, last⟩ :: runs, stop, terminator)

/-- Indices of the braces of the type that starts at token `start`. -/
def braces (start : Nat) (tokens : List Token) : Except Malformed (Nat × Nat) :=
  let lead := ((tokens.drop start).takeWhile (·.text != "\x7b")).length
  let openIndex := start + lead
  match closing? openIndex 0 (tokens.drop openIndex) with
  | some closeIndex => .ok (openIndex, closeIndex)
  | none => .error .unbalancedBraces

def ofTokens (kind : TypeKind) (openIndex closeIndex : Nat) (tokens : List Token) :
    Except Malformed Body := do
  let index := openIndex + 1
  let inside := (tokens.take closeIndex).drop index
  let (constants, index, terminator) :=
    if kind = .enum then constantRuns inside.length index inside else ([], index, none)
  let inside := (tokens.take closeIndex).drop index
  let members ← memberRuns (kind = .annotationType) inside.length index inside
  return { openIndex, closeIndex, constants, terminator, members }

def isInitializer (tokens : List Token) (run : Run) : Bool :=
  match Text.slice tokens run.first (run.last + 1) with
  | t :: rest => t.text == "\x7b" || (t.text == "static" && rest.head?.any (·.text == "\x7b"))
  | [] => false

/-- The run is an initializer block without statements. -/
def isEmptyInitializer (tokens : List Token) (run : Run) : Bool :=
  isInitializer tokens run &&
    match (Text.slice tokens run.first (run.last + 1)).map (·.text) with
    | "static" :: _ :: closing :: _ => closing == "\x7d"
    | "static" :: _ => false
    | _ :: closing :: _ => closing == "\x7d"
    | _ => false

end Body

end CallerFirst.Java
