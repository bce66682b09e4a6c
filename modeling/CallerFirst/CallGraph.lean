import CallerFirst.Signature

/-!
# Call graphs

Nodes in the order in which they were made, each with its callees and callers in the order of the
calls. Dropping an edge leaves the callers of its target as they are. Graphs are over any kind of
node that has a signature.
-/

namespace CallerFirst

class HasSignature (ν : Type) where
  signature : ν → Signature

instance : HasSignature Signature := ⟨id⟩

@[simp] theorem signature_signature (s : Signature) : HasSignature.signature s = s := rfl

structure CallNode (ν : Type) where
  id : ν
  callees : List ν := []
  callers : List ν := []

structure CallGraph (ν : Type) where
  nodes : List (CallNode ν) := []

namespace CallGraph

variable {ν : Type} [DecidableEq ν]

def ids (g : CallGraph ν) : List ν :=
  g.nodes.map (·.id)

def node? (g : CallGraph ν) (v : ν) : Option (CallNode ν) :=
  g.nodes.find? (·.id = v)

def contains (g : CallGraph ν) (v : ν) : Bool :=
  g.ids.contains v

def callees (g : CallGraph ν) (v : ν) : List ν :=
  ((g.node? v).map (·.callees)).getD []

def callers (g : CallGraph ν) (v : ν) : List ν :=
  ((g.node? v).map (·.callers)).getD []

def create (g : CallGraph ν) (v : ν) : CallGraph ν :=
  if g.contains v then g else ⟨g.nodes ++ [{ id := v }]⟩

def modify (g : CallGraph ν) (v : ν) (f : CallNode ν → CallNode ν) : CallGraph ν :=
  ⟨g.nodes.map fun n => if n.id = v then f n else n⟩

def addEdge (g : CallGraph ν) (caller callee : ν) : CallGraph ν :=
  if (g.callees caller).contains callee then g
  else
    (g.modify caller fun n => { n with callees := n.callees ++ [callee] }).modify callee fun n =>
      { n with callers := n.callers ++ [caller] }

def removeEdge (g : CallGraph ν) (caller callee : ν) : CallGraph ν :=
  g.modify caller fun n => { n with callees := n.callees.erase callee }

def edgeCount (g : CallGraph ν) : Nat :=
  (g.nodes.map (·.callees.length)).foldr (· + ·) 0

/-- The graph of callers with their callees: all callers are made first, then the calls. -/
def ofEdges (edges : List (ν × List ν)) : CallGraph ν :=
  let made := edges.foldl (fun g (caller, _) => g.create caller) ({} : CallGraph ν)
  edges.foldl (fun g (caller, callees) =>
    callees.foldl (fun g callee => (g.create callee).addEdge caller callee) g) made

section Reach

variable [HasSignature ν]

open HasSignature

def reachFrom (g : CallGraph ν) : Nat → List ν → List Signature → List Signature
  | 0, _, reached | _ + 1, [], reached => reached
  | fuel + 1, v :: stack, reached =>
    if reached.contains (signature v) then reachFrom g fuel stack reached
    else
      let reached := signature v :: reached
      let fresh := (g.callees v).filter fun w => !reached.contains (signature w)
      reachFrom g fuel (fresh.reverse ++ stack) reached

/-- Signatures reachable from a node over its callees, its own included. Every call is followed at
most once, so the number of calls bounds the search. -/
def reach (g : CallGraph ν) (v : ν) : List Signature :=
  reachFrom g (g.edgeCount + 2) [v] []

end Reach

end CallGraph

end CallerFirst
