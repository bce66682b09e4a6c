import CallerFirst.Yaml.Scalar
import CallerFirst.Yaml.Node
import CallerFirst.Yaml.Token.Lexer

/-!
# Documents of tokens

Nodes are put together from tokens: a node may have an anchor and a tag in front, and an alias stands
for the node with its anchor. Each reading function takes the stream of tokens on and gives it back
behind what it read.
-/

namespace CallerFirst.Yaml

inductive ParseFault where
  | malformed
  | cutOff

/-- Tokens that are ahead, and what earlier ones have declared. -/
structure Stream where
  tokens : List Token
  handles : List (String × String) := usualHandles
  /-- What anchors stand for, the last one first; a collection encloses itself until it is over. -/
  anchors : List (String × Node) := []

namespace Stream

def peek (s : Stream) : Except ParseFault Token :=
  match s.tokens with
  | [] => .error .cutOff
  | token :: _ => .ok token

def skip (s : Stream) : Stream :=
  { s with tokens := s.tokens.drop 1 }

def nextEntry (s : Stream) (isFirst : Bool) (isEnd : Token → Bool) : Except ParseFault Stream := do
  let token ← s.peek
  if isFirst || isEnd token then return s
  else if token matches .comma then return s.skip
  else throw .malformed

def expect (s : Stream) (isIt : Token → Bool) : Except ParseFault Stream := do
  if isIt (← s.peek) then return s.skip else throw .malformed

def declare (s : Stream) (anchor : Option String) (node : Node) : Stream :=
  match anchor with
  | some name => { s with anchors := (name, node) :: s.anchors }
  | none => s

end Stream

structure Properties where
  anchor : Option String := none
  tag : Option String := none

namespace Stream

def anchor? (s : Stream) : Except ParseFault (Option String × Stream) := do
  match ← s.peek with
  | .anchor name => return (some name, s.skip)
  | _ => return (none, s)

def tag? (s : Stream) : Except ParseFault (Option String × Stream) := do
  match ← s.peek with
  | .tag ⟨none, suffix⟩ => return (some suffix, s.skip)
  | .tag ⟨some handle, suffix⟩ =>
    match s.handles.lookup handle with
    | some start => return (some (start ++ suffix), s.skip)
    | none => throw .malformed
  | _ => return (none, s)

/-- Anchor and tag of a node, in either order. -/
def properties (s : Stream) : Except ParseFault (Properties × Stream) := do
  match ← s.anchor? with
  | (some anchor, s) =>
    let (tag, s) ← s.tag?
    return ({ anchor := some anchor, tag }, s)
  | (none, s) =>
    match ← s.tag? with
    | (none, s) => return ({}, s)
    | (some tag, s) =>
      let (anchor, s) ← s.anchor?
      return ({ anchor, tag := some tag }, s)

end Stream

namespace Properties

def isImplicit (p : Properties) : Bool :=
  p.tag.all (· == "!")

def isBare (p : Properties) : Bool :=
  p.anchor.isNone && p.tag.isNone

def tagOr (p : Properties) (usual : String) : String :=
  if p.isImplicit then usual else p.tag.getD usual

/-- The tag of a scalar: plain ones are taken by what they look like, others are texts. -/
def scalarTag (p : Properties) (text : List Char) (isPlain : Bool) : String :=
  if p.tag == some "!" || (p.tag.isNone && isPlain) then implicitTag text else p.tagOr Tag.text

end Properties

def emptyNode : Node :=
  .scalar Tag.null {}

def isBoundary : Token → Bool
  | .directive _ | .documentStart | .documentEnd | .streamEnd => true
  | _ => false

/-- Tokens that end what a key or a colon in a block map stands for. -/
def endsBlockPart : Token → Bool
  | .key | .value | .blockEnd => true
  | _ => false

/-- Tokens that end an entry of a block list; one without indentation ends with the next key. -/
def endsEntry (isLoose : Bool) : Token → Bool
  | .entry | .blockEnd => true
  | .key | .value => isLoose
  | _ => false

def endsFlowValue : Token → Bool
  | .comma | .flowListEnd | .flowMapEnd => true
  | _ => false

def endsFlowKey (token : Token) : Bool :=
  token matches .value || endsFlowValue token

mutual
/-- A node. Block collections may stand only in a block; a loose list stands in the column of the key
in front of it. -/
def node (inBlock mayLoose : Bool) : Nat → Stream → Except ParseFault (Node × Stream)
  | 0, _ => .error .malformed
  | fuel + 1, s => do
    if let .alias name ← s.peek then
      match s.anchors.lookup name with
      | some node => return (node, s.skip)
      | none => throw .malformed
    let (p, s) ← s.properties
    if p.anchor.any fun name => (s.anchors.lookup name).isSome then throw .malformed
    let list (read : Stream → Except ParseFault (List Node × Stream)) (s : Stream) := do
      let (items, s) ← read (s.declare p.anchor (.enclosing false))
      let node := Node.list (p.tagOr Tag.list) items
      return (node, s.declare p.anchor node)
    let map (read : Stream → Except ParseFault (List (Node × Node) × Stream)) (s : Stream) := do
      let (pairs, s) ← read (s.declare p.anchor (.enclosing true))
      let node := Node.map (p.tagOr Tag.map) pairs
      return (node, s.declare p.anchor node)
    let scalar (content : Content) (isPlain : Bool) (s : Stream) :=
      let node := Node.scalar (p.scalarTag content.text isPlain) content
      (node, s.declare p.anchor node)
    match ← s.peek, inBlock with
    | .scalar content isPlain, _ => return scalar content isPlain s.skip
    | .flowList, _ => list (flowItems true fuel) s.skip
    | .flowMap, _ => map (flowPairs true fuel) s.skip
    | .blockList, true => list (blockItems false fuel) s.skip
    | .blockMap, true => map (blockPairs fuel) s.skip
    | .entry, _ =>
      if mayLoose then list (blockItems true fuel) s
      else if p.isBare then throw .malformed
      else return scalar {} true s
    | _, _ => if p.isBare then throw .malformed else return scalar {} true s
termination_by structural fuel => fuel
/-- A node, or nothing in front of a token that ends it. -/
def nodeUnless (ends : Token → Bool) (inBlock mayLoose : Bool) :
    Nat → Stream → Except ParseFault (Node × Stream)
  | 0, _ => .error .malformed
  | fuel + 1, s => do
    if ends (← s.peek) then return (emptyNode, s) else node inBlock mayLoose fuel s
termination_by structural fuel => fuel
def valueUnless (ends : Token → Bool) (inBlock : Bool) :
    Nat → Stream → Except ParseFault (Node × Stream)
  | 0, _ => .error .malformed
  | fuel + 1, s => do
    if (← s.peek) matches .value then nodeUnless ends inBlock inBlock fuel s.skip
    else return (emptyNode, s)
termination_by structural fuel => fuel
def blockItems (isLoose : Bool) : Nat → Stream → Except ParseFault (List Node × Stream)
  | 0, _ => .error .malformed
  | fuel + 1, s => do
    match ← s.peek with
    | .entry =>
      let (item, s) ← nodeUnless (endsEntry isLoose) true false fuel s.skip
      let (items, s) ← blockItems isLoose fuel s
      return (item :: items, s)
    | token =>
      if isLoose then return ([], s)
      else if token matches .blockEnd then return ([], s.skip)
      else throw .malformed
termination_by structural fuel => fuel
def blockPairs : Nat → Stream → Except ParseFault (List (Node × Node) × Stream)
  | 0, _ => .error .malformed
  | fuel + 1, s => do
    match ← s.peek with
    | .key =>
      let (key, s) ← nodeUnless endsBlockPart true true fuel s.skip
      let (value, s) ← valueUnless endsBlockPart true fuel s
      let (pairs, s) ← blockPairs fuel s
      return ((key, value) :: pairs, s)
    | .blockEnd => return ([], s.skip)
    | _ => throw .malformed
termination_by structural fuel => fuel
/-- Items of a flow list; a pair among them is a map of its own. -/
def flowItems (isFirst : Bool) : Nat → Stream → Except ParseFault (List Node × Stream)
  | 0, _ => .error .malformed
  | fuel + 1, s => do
    let s ← s.nextEntry isFirst (· matches .flowListEnd)
    match ← s.peek with
    | .flowListEnd => return ([], s.skip)
    | .key =>
      let (key, s) ← nodeUnless endsFlowKey false false fuel s.skip
      let (value, s) ← valueUnless endsFlowValue false fuel s
      let (items, s) ← flowItems false fuel s
      return (.map Tag.map [(key, value)] :: items, s)
    | _ =>
      let (item, s) ← node false false fuel s
      let (items, s) ← flowItems false fuel s
      return (item :: items, s)
termination_by structural fuel => fuel
/-- Pairs of a flow map; a node alone is a key without a value. -/
def flowPairs (isFirst : Bool) : Nat → Stream → Except ParseFault (List (Node × Node) × Stream)
  | 0, _ => .error .malformed
  | fuel + 1, s => do
    let s ← s.nextEntry isFirst (· matches .flowMapEnd)
    match ← s.peek with
    | .flowMapEnd => return ([], s.skip)
    | .key =>
      let (key, s) ← nodeUnless endsFlowKey false false fuel s.skip
      let (value, s) ← valueUnless endsFlowValue false fuel s
      let (pairs, s) ← flowPairs false fuel s
      return ((key, value) :: pairs, s)
    | _ =>
      let (key, s) ← node false false fuel s
      let (pairs, s) ← flowPairs false fuel s
      return ((key, emptyNode) :: pairs, s)
termination_by structural fuel => fuel
end

/-! ### Documents -/

/-- Directives in front of a document: at most one version, which has to be one of the first, and
handles that are declared once. -/
def directives (hasVersion : Bool) (handles : List (String × String)) :
    List Token → Except ParseFault (List (String × String) × List Token)
  | .directive (.version major) :: rest =>
    if hasVersion || major != 1 then .error .malformed else directives true handles rest
  | .directive (.handle name start) :: rest =>
    if (handles.lookup name).isSome then .error .malformed
    else directives hasVersion ((name, start) :: handles) rest
  | .directive .other :: rest => directives hasVersion handles rest
  | rest => .ok (handles ++ usualHandles, rest)

def documentNode (s : Stream) : Except ParseFault (Node × Stream) :=
  node true false (4 * s.tokens.length + 4) s

def firstDocument (s : Stream) : Except ParseFault (Option Node × Stream) := do
  match ← s.peek with
  | .streamEnd => return (none, s)
  | .directive _ | .documentStart =>
    let (handles, tokens) ← directives false [] s.tokens
    let s ← ({ s with handles, tokens } : Stream).expect (· matches .documentStart)
    if isBoundary (← s.peek) then return (some emptyNode, s)
    let (node, s) ← documentNode s
    return (some node, s)
  | _ =>
    let (node, s) ← documentNode s
    return (some node, s)

def finish : List Token → Except ParseFault Unit
  | [] => .error .cutOff
  | .documentEnd :: rest => finish rest
  | .streamEnd :: _ => .ok ()
  | _ :: _ => .error .malformed

def document (tokens : List Token) : Except ParseFault (Option Node) := do
  let (node, s) ← firstDocument { tokens }
  finish s.tokens
  return node

def isAllowed (c : Char) : Bool :=
  let n := c.toNat
  c == '\t' || c == '\n' || c == '\r' || (0x20 ≤ n && n ≤ 0x7e) || n == 0x85 ||
    (0xa0 ≤ n && n ≤ 0xd7ff) || (0xe000 ≤ n && n ≤ 0xfffd) || 0x10000 ≤ n

/-- The one document of a text. A fault of the text counts once the document gets to it. -/
def Node.ofText (text : List Char) : Except Fault (Option Node) :=
  if !text.all isAllowed then .error .malformed
  else
    let cut := Tokens.ofText text
    match document cut.tokens with
    | .ok node => .ok node
    | .error .malformed => .error .malformed
    | .error .cutOff => .error (cut.fault.getD .malformed)

end CallerFirst.Yaml
