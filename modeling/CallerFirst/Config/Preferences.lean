import CallerFirst.Traversal

/-!
# Preferences

What decides the order of methods and members.
-/

namespace CallerFirst

/-- Criteria in the order in which messages list them. -/
inductive Priority where
  | invocation
  | accessLevel
  | constructor
  | fanOut
  | initializer
  | lexical
  | roots
  | sourcePosition
  | reachability
  | fanIn
  | fanInFanOutRate
  | leaves
  deriving DecidableEq

namespace Priority

def all : List Priority :=
  [invocation, accessLevel, constructor, fanOut, initializer, lexical, roots, sourcePosition,
   reachability, fanIn, fanInFanOutRate, leaves]

def name : Priority → String
  | invocation => "INVOCATION"
  | accessLevel => "ACCESS_LEVEL"
  | constructor => "CONSTRUCTOR"
  | fanOut => "FAN_OUT"
  | initializer => "INITIALIZER"
  | lexical => "LEXICAL"
  | roots => "ROOTS"
  | sourcePosition => "SOURCE_POSITION"
  | reachability => "REACHABILITY"
  | fanIn => "FAN_IN"
  | fanInFanOutRate => "FAN_IN_FAN_OUT_RATIO"
  | leaves => "LEAVES"

def ofName? (name : String) : Option Priority :=
  all.find? (·.name == name)

end Priority

inductive Startpoints where
  /-- With what is likely to be called from outside. -/
  | heuristic
  /-- In source order. -/
  | user
  deriving DecidableEq

namespace Startpoints

def name : Startpoints → String
  | heuristic => "heuristic"
  | user => "user"

def ofName? (name : String) : Option Startpoints :=
  [heuristic, user].find? (·.name == name)

end Startpoints

inductive Category where
  | enumConstants
  | types
  | staticInitializers
  | fields
  | initializers
  | constructors
  | methods
  | annotationMembers
  deriving DecidableEq

namespace Category

def all : List Category :=
  [enumConstants, types, staticInitializers, fields, initializers, constructors, methods,
   annotationMembers]

def name : Category → String
  | enumConstants => "enum_constants"
  | types => "types"
  | staticInitializers => "static_initializers"
  | fields => "fields"
  | initializers => "initializers"
  | constructors => "constructors"
  | methods => "methods"
  | annotationMembers => "annotation_members"

def ofName? (name : String) : Option Category :=
  all.find? (·.name == name)

end Category

structure CategoryRanks where
  enumConstants : Int := 0
  types : Int := 1
  staticInitializers : Int := 2
  fields : Int := 3
  initializers : Int := 4
  constructors : Int := 5
  methods : Int := 6
  annotationMembers : Int := 6
  deriving DecidableEq

namespace CategoryRanks

def get (r : CategoryRanks) : Category → Int
  | .enumConstants => r.enumConstants
  | .types => r.types
  | .staticInitializers => r.staticInitializers
  | .fields => r.fields
  | .initializers => r.initializers
  | .constructors => r.constructors
  | .methods => r.methods
  | .annotationMembers => r.annotationMembers

def set (r : CategoryRanks) (c : Category) (rank : Int) : CategoryRanks :=
  match c with
  | .enumConstants => { r with enumConstants := rank }
  | .types => { r with types := rank }
  | .staticInitializers => { r with staticInitializers := rank }
  | .fields => { r with fields := rank }
  | .initializers => { r with initializers := rank }
  | .constructors => { r with constructors := rank }
  | .methods => { r with methods := rank }
  | .annotationMembers => { r with annotationMembers := rank }

@[simp] theorem get_set_self (r : CategoryRanks) (c : Category) (rank : Int) :
    (r.set c rank).get c = rank := by
  cases c <;> rfl

theorem get_set_of_ne (r : CategoryRanks) {c d : Category} (rank : Int) (h : d ≠ c) :
    (r.set c rank).get d = r.get d := by
  cases c <;> cases d <;> first | rfl | exact absurd rfl h

end CategoryRanks

structure Preferences where
  priorities : List Priority := [.invocation, .accessLevel, .sourcePosition, .lexical]
  strategy : Strategy := .depthFirst
  startpoints : Startpoints := .heuristic
  respectBeforeAfter : Bool := true
  clusterGetterSetter : Bool := false
  clusterOverloaded : Bool := false
  categoryRanks : CategoryRanks := {}
  deriving DecidableEq

namespace Preferences

def isClustering (p : Preferences) : Bool :=
  p.clusterGetterSetter || p.clusterOverloaded

def placement (p : Preferences) : Placement :=
  if p.respectBeforeAfter then .beforeCallees else .append

end Preferences

end CallerFirst
