import CallerFirst.Java.Token

/-!
# Reading tokens

Parsers read a list of tokens, and keep the place they reached when they fail. `speculate` tries one
reading and goes back to a mark for another. Marks are shared: a nested reading that succeeds moves
the mark of the reading around it to its own start, so a later failure goes back only that far.
-/

namespace CallerFirst.Java

inductive ParseFault where
  /-- The text is no Java; `position` is missing at the end of the input. -/
  | unexpected (description : String) (position : Option Position)
  /-- A token was needed where the input ends. -/
  | endOfInput
  /-- An expression ends with the input. -/
  | openExpression
  deriving DecidableEq

/-- The tokens ahead, and those to go back to when a speculation fails. -/
structure Cursor where
  rest : List Token
  mark : List Token

abbrev Parser := EStateM ParseFault Cursor

inductive Pattern where
  | text (value : String)
  | kind (k : TokenKind)

instance : Coe String Pattern := ⟨.text⟩

namespace Pattern

def identifier : Pattern := .kind .identifier

def accepts : Pattern → Token → Bool
  | text value, token => token.text == value
  | kind k, token => token.kind == k

def expectation : Pattern → String
  | text value => "Expected '" ++ value ++ "'"
  | kind .identifier => "Expected Identifier"
  | kind .basicType => "Expected BasicType"
  | kind .modifier => "Expected Modifier"
  | kind .literal => "Expected Literal"
  | kind .operator => "Expected Operator"
  | kind .separator => "Expected Separator"
  | kind .atSign => "Expected Annotation"
  | kind .keyword => "Expected Keyword"

def acceptsAll : List Pattern → List Token → Bool
  | [], _ => true
  | p :: ps, t :: ts => p.accepts t && acceptsAll ps ts
  | _ :: _, [] => false

end Pattern

namespace Parser

def look : Parser (Option Token) :=
  fun s => .ok s.rest.head? s

def lookText : Parser (Option String) :=
  fun s => .ok (s.rest.head?.map (·.text)) s

def lookKind : Parser (Option TokenKind) :=
  fun s => .ok (s.rest.head?.map (·.kind)) s

def illegal (description : String) : Parser α :=
  fun s => .error (.unexpected description (s.rest.head?.map (·.position))) s

def next : Parser Token :=
  fun s =>
    match s.rest with
    | [] => .error .endOfInput s
    | t :: rest => .ok t { s with rest }

/-- Takes the token ahead; if the pattern does not accept it, fails at the token behind it. -/
def acceptOne (p : Pattern) : Parser Token := do
  let token ← next
  if p.accepts token then return token else illegal p.expectation

def accept : List Pattern → Parser Unit
  | [] => return
  | p :: ps => do
    discard <| acceptOne p
    accept ps

def would (ps : List Pattern) : Parser Bool :=
  fun s => .ok (Pattern.acceptsAll ps s.rest) s

def tryAccept (ps : List Pattern) : Parser Bool :=
  fun s =>
    if Pattern.acceptsAll ps s.rest then .ok true { s with rest := s.rest.drop ps.length }
    else .ok false s

def wouldOneOf (texts : List String) : Parser Bool :=
  return (← lookText).any texts.contains

def identifier : Parser String :=
  return (← acceptOne .identifier).text

/-- Tries `first`; when the text does not fit, goes back to the mark and reads `second`. Other
faults go back too, but are not mended. -/
def speculate (first second : Parser α) : Parser α :=
  fun s =>
    match first { s with mark := s.rest } with
    | .ok a t => .ok a t
    | .error fault t =>
      let back : Cursor := { rest := t.mark, mark := s.mark }
      match fault with
      | .unexpected .. => second back
      | _ => .error fault back

/-- Reads items while the condition holds. Every item takes a token, so the tokens ahead bound the
number of rounds. -/
def whileM (condition : Parser Bool) (item : Parser α) : Parser (List α) :=
  fun s => go (s.rest.length + 1) s
where
  go : Nat → Parser (List α)
    | 0 => return []
    | n + 1 => do
      if ← condition then
        let a ← item
        return a :: (← go n)
      else return []

def separated (separator : String) (item : Parser α) : Parser (List α) := do
  let first ← item
  return first :: (← whileM (tryAccept [separator]) item)

def unless? (stop : String) (item : Parser α) : Parser (Option α) := do
  if ← would [stop] then return none else return some (← item)

def when? (start : String) (item : Parser α) : Parser (Option α) := do
  if ← would [start] then return some (← item) else return none

def after? (start : String) (item : Parser α) : Parser (Option α) := do
  if ← tryAccept [start] then return some (← item) else return none

def qualifiedName : Parser String :=
  return String.intercalate "." (← separated "." identifier)

def dimensions : Parser Nat :=
  return (← whileM (tryAccept ["[", "]"]) (pure ())).length

def isAnnotationUse : List Token → Bool
  | t :: rest => t.kind == .atSign && !rest.head?.any (·.text == "interface")
  | [] => false

def isAnnotationDeclaration : List Token → Bool
  | t :: rest => t.kind == .atSign && rest.head?.any (·.text == "interface")
  | [] => false

def wouldAnnotate : Parser Bool :=
  fun s => .ok (isAnnotationUse s.rest) s

def wouldAnnotationDeclaration : Parser Bool :=
  fun s => .ok (isAnnotationDeclaration s.rest) s

def here : Parser Position :=
  fun s => .ok ((s.rest.head?.map (·.position)).getD default) s

end Parser

end CallerFirst.Java
