import CallerFirst.CallGraph.Declared
import CallerFirst.Comparator
import CallerFirst.Random
import CallerFirst.Traversal

/-!
# Criteria for the order of methods

Comparators made from the declarations of a unit or from its call graph.
-/

namespace CallerFirst

namespace RankTable

/-- Visible from anywhere, from below, from the package, or from the type only. -/
def accessLevel (modifiers : List String) : Nat :=
  if modifiers.contains "public" then 0
  else if modifiers.contains "protected" then 1
  else if modifiers.contains "private" then 3
  else 2

def ofMethods (methods : List Method) (unknownFirst : Bool) (rank : Nat → Method → Rank) :
    RankTable :=
  ofList (methods.mapIdx fun i m => (.ofMethod m, rank i m)) unknownFirst

/-- By place in the source; what is no method comes first. -/
def sourcePosition (unit : Node) : RankTable :=
  ofMethods (Declared.ofUnit unit).methods true fun i _ => .finite i

def access (unit : Node) : RankTable :=
  ofMethods (Declared.ofUnit unit).methods true fun _ m => .finite (accessLevel m.modifiers)

def constructors (unit : Node) : RankTable :=
  ofMethods ((Declared.ofUnit unit).methods.filter (·.isConstructor)) false fun _ _ => 0

def initializers (unit : Node) : RankTable :=
  ofList ((List.range (Declared.ofUnit unit).initializers).map fun (i : Nat) =>
    (.ofInitializer i, .finite i)) false

section Graph

variable {ν : Type} [DecidableEq ν] [HasSignature ν]

open HasSignature

def ofNodes (nodes : List ν) (rank : ν → Rank) : RankTable :=
  ofList (nodes.map fun v => (signature v, rank v)) false

def fanOut (g : CallGraph ν) (nodes : List ν) : RankTable :=
  ofNodes nodes fun v => .finite (-((g.callees v).length : Int))

def fanIn (g : CallGraph ν) (nodes : List ν) : RankTable :=
  ofNodes nodes fun v => .finite (g.callers v).length

/-- Nodes with few callers for each callee first. -/
def fanRate (g : CallGraph ν) (nodes : List ν) : RankTable :=
  ofNodes nodes fun v => .ratio (g.callers v).length (g.callees v).length

def roots (g : CallGraph ν) (nodes : List ν) : RankTable :=
  ofNodes nodes fun v => if (g.callers v).isEmpty then .finite (-1) else 0

def leaves (g : CallGraph ν) (nodes : List ν) : RankTable :=
  ofNodes nodes fun v => if (g.callees v).isEmpty then 1 else 0

def random (seed : Int) (nodes : List ν) : RankTable :=
  ofList ((nodes.zip ((Twister.ofSeed seed).draws Twister.enough nodes.length)).map fun (v, r) =>
    (signature v, .finite r)) false

def ofArrangement (ordered : List ν) : RankTable :=
  ofList (ordered.mapIdx fun i v => (signature v, .finite i)) false

end Graph

end RankTable

namespace CallGraph

variable {ν : Type} [DecidableEq ν] [HasSignature ν]

open HasSignature

/-- A copy of the graph below some nodes: signatures in the order met, and calls between them. -/
structure Below where
  vertices : List Signature := []
  edges : List (Signature × Signature) := []

def belowFrom (g : CallGraph ν) : Nat → List ν → Below → Below
  | 0, _, b | _ + 1, [], b => b
  | fuel + 1, v :: queue, b =>
    if b.vertices.contains (signature v) then belowFrom g fuel queue b
    else
      let callees := g.callees v
      let b : Below :=
        { vertices := b.vertices ++ [signature v]
          edges := b.edges ++ callees.map fun w => (signature v, signature w) }
      let fresh := callees.filter fun w => !b.vertices.contains (signature w)
      belowFrom g fuel (queue ++ fresh) b

def below (g : CallGraph ν) (nodes : List ν) : Below :=
  belowFrom g (nodes.length + g.edgeCount + 1) nodes {}

namespace Below

def targets (b : Below) (s : Signature) : List Signature :=
  (b.edges.filter (·.1 = s)).map Prod.snd

def closureFrom (b : Below) : Nat → List Signature → List Signature → List Signature
  | 0, _, reached | _ + 1, [], reached => reached
  | fuel + 1, s :: pending, reached =>
    if reached.contains s then closureFrom b fuel pending reached
    else closureFrom b fuel (b.targets s ++ pending) (s :: reached)

def closure (b : Below) (s : Signature) : List Signature :=
  closureFrom b (b.edges.length + 2) [s] []

def numbered (b : Below) : List (Nat × Nat) :=
  b.edges.map fun (s, t) => (b.vertices.idxOf s, b.vertices.idxOf t)

end Below

def reachability (g : CallGraph ν) (nodes : List ν) : List (Signature × List Signature) :=
  let b := g.below nodes
  b.vertices.map fun s => (s, b.closure s)

end CallGraph

end CallerFirst
