import CallerFirst.CallGraph

/-!
# Orders by traversal

An arrangement is a list of nodes under construction, together with the graph it is made from. Nodes
are appended, or placed in front of the first node they lead to. Placing prunes the graph: a node
loses its calls to nodes it was not placed in front of.
-/

namespace CallerFirst

structure Arrangement (ν : Type) where
  graph : CallGraph ν
  ordered : List ν := []

inductive Placement where
  | append
  /-- In front of the first node that it reaches and that does not reach it. -/
  | beforeCallees
  deriving DecidableEq

inductive Strategy where
  | depthFirst
  | breadthFirst
  deriving DecidableEq

namespace Strategy

def name : Strategy → String
  | depthFirst => "depth-first"
  | breadthFirst => "breadth-first"

def ofName? (name : String) : Option Strategy :=
  [depthFirst, breadthFirst].find? (·.name == name)

end Strategy

namespace Arrangement

variable {ν : Type} [DecidableEq ν] [HasSignature ν]

open HasSignature

def contains (a : Arrangement ν) (v : ν) : Bool :=
  a.ordered.any fun w => signature w = signature v

def leadsTo (g : CallGraph ν) (v w : ν) : Bool :=
  (g.reach v).contains (signature w) && !(g.reach w).contains (signature v)

/-- Places `v` in front of the first of `ahead` it leads to, behind those `passed` in reverse. A
node that is passed loses the call from `v`. -/
def placeBefore (g : CallGraph ν) (v : ν) (passed : List ν) : List ν → Arrangement ν
  | [] => { graph := g, ordered := passed.reverse ++ [v] }
  | w :: ahead =>
    if leadsTo g v w then { graph := g, ordered := passed.reverse ++ v :: w :: ahead }
    else placeBefore (g.removeEdge v w) v (w :: passed) ahead

/-- Inserts a node, unless one of its signature is there. -/
def insert (p : Placement) (a : Arrangement ν) (v : ν) : Arrangement ν :=
  if a.contains v then a
  else
    match p with
    | .append => { a with ordered := a.ordered ++ [v] }
    | .beforeCallees => placeBefore a.graph v [] a.ordered

/-- Works off a list of pending nodes; the callees of a node come first or last among them. -/
def visit (p : Placement) (s : Strategy) : Nat → Arrangement ν → List ν → Arrangement ν
  | 0, a, _ | _ + 1, a, [] => a
  | fuel + 1, a, v :: pending =>
    if a.contains v then visit p s fuel a pending
    else
      let callees := a.graph.callees v
      let pending :=
        match s with
        | .depthFirst => callees ++ pending
        | .breadthFirst => pending ++ callees
      visit p s fuel (a.insert p v) pending

/-- Inserts what is reachable from the roots, root by root. Every call is followed at most once, so
the number of calls bounds the work for a root. -/
def traverse (p : Placement) (s : Strategy) (a : Arrangement ν) (roots : List ν) : Arrangement ν :=
  roots.foldl (fun a root => visit p s (a.graph.edgeCount + 2) a [root]) a

end Arrangement

end CallerFirst
