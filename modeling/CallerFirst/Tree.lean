/-!
# The tree of a compilation unit

What ordering needs to know of a unit: its types with their members and where those stand in the
source, the headers of methods, and the calls found in bodies together with what they are bound to.
Any node may stand in any list of children.
-/

namespace CallerFirst

/-- A type as calls are bound to it. Types are told apart by their key. -/
structure TypeBinding where
  name : String
  key : String
  isTopLevel : Bool := true
  isAnonymous : Bool := false
  deriving DecidableEq

namespace TypeBinding

def isNested (b : TypeBinding) : Bool :=
  !b.isTopLevel && !b.isAnonymous

def isPrimary (b : TypeBinding) : Bool :=
  b.isTopLevel && !b.isAnonymous

end TypeBinding

structure MethodBinding where
  name : String
  parameterTypes : List String := []
  declaringType : Option TypeBinding := none
  deriving DecidableEq

structure Parameter where
  typeText : String
  name : String := ""
  varargs : Bool := false
  deriving DecidableEq

/-- Where a member stands: its span in the source and its place in the body. A tree that was not read
from a source may hold any numbers here; below zero, offsets count from the end. -/
structure Place where
  start : Int := 0
  stop : Int := 0
  index : Int := 0
  deriving DecidableEq

structure Method where
  name : String := ""
  parameters : List Parameter := []
  modifiers : List String := []
  returnType : Option String := none
  isConstructor : Bool := false
  deriving DecidableEq

namespace Method

def parameterTypes (m : Method) : List String :=
  m.parameters.map (·.typeText)

end Method

/-- Header of a type: the text between `bodyStart` and `bodyEnd` is its body, and members that may
move stand behind `membersStart`. -/
structure TypeHeader where
  name : String := ""
  kind : String := "class"
  binding : Option TypeBinding := none
  modifiers : List String := []
  bodyStart : Int := 0
  membersStart : Int := 0
  bodyEnd : Int := 0
  deriving DecidableEq

inductive Node where
  | unit (source package : String) (types : List Node)
  | type (place : Place) (header : TypeHeader) (members : List Node)
  | method (place : Place) (header : Method) (body : List Node)
  | initializer (place : Place) (isStatic : Bool) (body : List Node)
  | field (place : Place) (typeText : String) (names modifiers : List String)
      (initializers : List Node)
  | enumConstant (place : Place) (name : String) (arguments : List Node) (body : Option Node)
  | annotationMember (place : Place) (name : String) (returnType : Option String)
  | anonymousClass (binding : Option TypeBinding) (members : List Node)
  | call (name : String) (hasQualifier : Bool) (binding : Option MethodBinding)
      (arguments : List Node)

namespace Node

instance : Inhabited Node := ⟨.annotationMember {} "" none⟩

def children : Node → List Node
  | unit _ _ types => types
  | type _ _ members => members
  | method _ _ body => body
  | initializer _ _ body => body
  | field _ _ _ _ initializers => initializers
  | enumConstant _ _ arguments body => arguments ++ body.toList
  | annotationMember _ _ _ => []
  | anonymousClass _ members => members
  | call _ _ _ arguments => arguments

inductive Kind where
  | unit
  | type
  | method
  | initializer
  | field
  | enumConstant
  | annotationMember
  | anonymousClass
  | call
  deriving DecidableEq

def kind : Node → Kind
  | unit .. => .unit
  | type .. => .type
  | method .. => .method
  | initializer .. => .initializer
  | field .. => .field
  | enumConstant .. => .enumConstant
  | annotationMember .. => .annotationMember
  | anonymousClass .. => .anonymousClass
  | call .. => .call

def Kind.name : Kind → String
  | unit => "compilation_unit"
  | type => "type_declaration"
  | method => "method_declaration"
  | initializer => "initializer"
  | field => "field_declaration"
  | enumConstant => "enum_constant"
  | annotationMember => "annotation_member"
  | anonymousClass => "anonymous_class"
  | call => "method_invocation"

def name : Node → String
  | unit .. | initializer .. | field .. | anonymousClass .. => ""
  | type _ header _ => header.name
  | method _ header _ => header.name
  | enumConstant _ name _ _ => name
  | annotationMember _ name _ => name
  | call name _ _ _ => name

def place? : Node → Option Place
  | type place .. | method place .. | initializer place .. | field place ..
  | enumConstant place .. | annotationMember place .. => some place
  | unit .. | anonymousClass .. | call .. => none

/-- Place of a member; nodes that are no members stand nowhere. -/
def place (n : Node) : Place :=
  n.place?.getD {}

def label (n : Node) : String :=
  n.kind.name ++ ":" ++ n.name

end Node

end CallerFirst
