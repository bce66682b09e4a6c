import CallerFirst.Java.Pairing
import CallerFirst.Java.Resolution

/-!
# From code to the tree of a unit

Bodies become the calls, anonymous classes and local types in them, in the order in which they are
looked at. Headers of a body come first, so that every member sees all methods and fields.
-/

namespace CallerFirst.Java

/-- Calls resolved so far, and the number of anonymous classes met. -/
structure Progress where
  resolved : Resolved := []
  anonymous : Nat := 0

abbrev Convert := StateT Progress (Except Fault)

namespace Convert

def resolving (x : StateM Resolved α) : Convert α :=
  modifyGet fun p =>
    let (a, resolved) := x.run p.resolved
    (a, { p with resolved })

def nextAnonymous : Convert Nat :=
  modifyGet fun p => (p.anonymous + 1, { p with anonymous := p.anonymous + 1 })

def bindCall (s : Scopes) (site : Position) (member : String) (arguments : List Code) :
    Convert (Option MethodBinding) := do
  let found ← resolving (s.resolve site member arguments)
  return found.map fun r =>
    { name := r.method.name
      parameterTypes := r.method.parameterTypes
      declaringType := some r.declaringType }

def ownerKey (s : Scopes) : String :=
  (s.types.head?.map (·.binding.key)).getD ""

def methodOf? : Declaration → Option Method
  | .method header .. => some header
  | _ => none

/-- Fields in scope; of two fields of one name the later counts. -/
def fieldsOf : Declaration → Variables
  | .field head .. =>
    (head.declarators.map fun d =>
      (d.name, head.type.render ++ TypeRef.brackets d.dimensions)).reverse
  | _ => []

def scopeOf (binding : TypeBinding) (declarations : List Declaration) : Scope :=
  { binding
    methods := declarations.filterMap methodOf?
    fields := declarations.reverse.flatMap fieldsOf }

def placeOf (index : Nat) (pair : Pair Declaration) : Place :=
  match pair.span with
  | some (start, stop) => { start, stop, index }
  | none => { index }

def emptyBlock (index : Nat) (pair : Pair Declaration) : Node :=
  .initializer (placeOf index pair) pair.isStatic []

/-- Where the body of a type stands, with its declarations paired with their spans. -/
structure Layout where
  bodyStart : Nat := 0
  membersStart : Nat := 0
  bodyEnd : Nat := 0
  constants : List (Pair Declaration)
  members : List (Pair Declaration)

def layoutOf (source : Source) (head : TypeHead) (constants declarations : List Declaration) :
    Except Fault Layout := do
  let start := source.tokens.findIdx (·.position == head.position)
  let (openIndex, closeIndex) ← (Body.braces start source.tokens).mapError .malformed
  let bodyStart := (← source.offsetAt openIndex) + 1
  let bodyEnd ← source.offsetAt closeIndex
  let body ← (Body.ofTokens head.kind openIndex closeIndex source.tokens).mapError .malformed
  let membersStart ←
    match body.terminator, body.constants.getLast? with
    | some index, _ => source.endAt index
    | none, some run => source.endAt run.last
    | none, none => pure bodyStart
  let (front, back) ←
    Pair.ofBody source head.name Declaration.isBlock Declaration.ruleName body constants declarations
  return { bodyStart, membersStart, bodyEnd, constants := front, members := back }

def typeHeader (head : TypeHead) (binding : TypeBinding) (layout : Layout) : TypeHeader :=
  { name := head.name
    kind := head.kind.name
    binding := some binding
    modifiers := head.modifiers
    bodyStart := layout.bodyStart
    membersStart := layout.membersStart
    bodyEnd := layout.bodyEnd }

/-- Empty blocks in front of the next declaration, and the pairs from that declaration on. -/
def splitBlocks (pairs : List (Pair Declaration)) : List (Pair Declaration) × List (Pair Declaration) :=
  pairs.span (·.declaration.isNone)

mutual
def code (source : Source) (s : Scopes) : Code → Convert (List Node)
  | .literal _ | .name _ _ | .this _ => return []
  | .call site qualifier member arguments => do
    let binding ← if qualifier.isEmpty then bindCall s site member arguments else pure none
    return [.call member (!qualifier.isEmpty) binding (← codes source s arguments)]
  | .create _ arguments body => do
    return (← codes source s arguments) ++ (← anonymousClass source s body)
  | .createInner arguments body => do
    return (← codes source s arguments) ++ (← anonymousClass source s body)
  | .createArray _ _ parts => codes source s parts
  | .cast _ operand => code source s operand
  | .binary _ left right => do
    return (← code source s left) ++ (← code source s right)
  | .conditional condition whenTrue whenFalse => do
    return (← code source s condition) ++ (← code source s whenTrue) ++ (← code source s whenFalse)
  | .select (.this qualifier) selectorList => selectors source s qualifier.isEmpty selectorList
  | .select target selectorList => do
    return (← code source s target) ++ (← selectors source s false selectorList)
  | .declare _ parts => codes source s parts
  | .localType declaration => do
    let head := declaration.head
    let key := ownerKey s ++ "$local$" ++ head.name
    return [← typeNode source s 0 none { name := head.name, key, isTopLevel := false } declaration]
  | .primary parts => codes source s parts
  | .compound parts => codes source s parts
def codes (source : Source) (s : Scopes) : List Code → Convert (List Node)
  | [] => return []
  | c :: rest => do
    return (← code source s c) ++ (← codes source s rest)
/-- Nodes of selectors. Calls among them are qualified, except the first behind a plain `this`. -/
def selectors (source : Source) (s : Scopes) (behindThis : Bool) :
    List Code → Convert (List Node)
  | [] => return []
  | .call site _ member arguments :: rest => do
    let binding ← if behindThis then bindCall s site member arguments else pure none
    let node := Node.call member (!behindThis) binding (← codes source s arguments)
    return node :: (← selectors source s false rest)
  | c :: rest => do
    return (← code source s c) ++ (← selectors source s false rest)
def anonymousClass (source : Source) (s : Scopes) :
    Option (List Declaration) → Convert (List Node)
  | none => return []
  | some declarations => do
    let number ← nextAnonymous
    let key := ownerKey s ++ "$" ++ toString number
    let binding : TypeBinding := { name := "", key, isTopLevel := false, isAnonymous := true }
    let inner : Scopes := { s with types := scopeOf binding declarations :: s.types }
    let members ←
      membersFrom source inner s.locals 0 (Pair.unplaced declarations) s.locals declarations
    return [.anonymousClass (some binding) members]
def typeNode (source : Source) (s : Scopes) (index : Nat) (span : Option (Nat × Nat))
    (binding : TypeBinding) : TypeDeclaration → Convert Node
  | .mk head _ constants declarations => do
    let layout ← layoutOf source head constants declarations
    let inner : Scopes := { s with types := scopeOf binding declarations :: s.types }
    let front ← membersFrom source inner s.locals 0 layout.constants s.locals constants
    let back ←
      membersFrom source inner s.locals layout.constants.length layout.members s.locals declarations
    return .type (placeOf index ⟨none, span, false⟩) (typeHeader head binding layout) (front ++ back)
/-- Nodes of declarations with their pairs, from `index` on. Every member starts from the variables
`outer`; `current` are those in force behind the member before, which a nested type sees. -/
def membersFrom (source : Source) (s : Scopes) (outer : Variables) (index : Nat)
    (pairs : List (Pair Declaration)) (current : Variables) :
    List Declaration → Convert (List Node)
  | [] => return pairs.mapIdx fun i pair => emptyBlock (index + i) pair
  | d :: declarations => do
    let (blocks, pairs) := splitBlocks pairs
    let current := if blocks.isEmpty then current else outer
    let start := index + blocks.length
    let pair := pairs.headD ⟨none, none, false⟩
    let (node, current) ← member source s outer start pair current d
    let rest ← membersFrom source s outer (start + 1) pairs.tail current declarations
    return blocks.mapIdx (fun i pair => emptyBlock (index + i) pair) ++ node :: rest
/-- The node of a member, and the variables in force behind it. -/
def member (source : Source) (s : Scopes) (outer : Variables) (index : Nat)
    (pair : Pair Declaration) (current : Variables) : Declaration → Convert (Node × Variables)
  | .method header annotations parameters body => do
    let declared := localsOfAll annotations ++ localsOfAll parameters ++ localsOfAll body
    let inner := declared ++ outer
    let nodes ← codes source { s with locals := inner } body
    return (.method (placeOf index pair) header nodes, inner)
  | .block statements => do
    let inner := localsOfAll statements ++ outer
    let nodes ← codes source { s with locals := inner } statements
    return (.initializer (placeOf index pair) pair.isStatic nodes, inner)
  | .field head _ initializers => do
    let nodes ← codes source { s with locals := outer } initializers
    let names := head.declarators.map (·.name)
    return (.field (placeOf index pair) head.type.render names head.modifiers nodes, outer)
  | .enumConstant name _ arguments body => do
    let inner := { s with locals := outer }
    let nodes ← codes source inner arguments
    let bodyNode ← anonymousClass source inner body
    return (.enumConstant (placeOf index pair) name nodes bodyNode.head?, outer)
  | .annotationMember name returnType _ _ =>
    return (.annotationMember (placeOf index pair) name (some returnType.render), outer)
  | .type declaration => do
    let head := declaration.head
    let key := ownerKey s ++ "$" ++ head.name
    let binding : TypeBinding := { name := head.name, key, isTopLevel := false }
    let node ← typeNode source { s with locals := current } index pair.span binding declaration
    return (node, current)
end

end Convert

end CallerFirst.Java
