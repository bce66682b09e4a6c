import CallerFirst.Cluster

/-!
# Graphs with clusters

A cluster can stand in a graph as a vertex of its own that shares the calls of its members, so it
can be arranged and ranked like a method. Methods do not know of the clusters they are in: no call
leads to a cluster.
-/

namespace CallerFirst

inductive Vertex where
  | method (s : Signature)
  /-- A cluster, by its number, and the signature it goes by. -/
  | cluster (number : Nat) (main : Signature)
  deriving DecidableEq

namespace Vertex

instance : HasSignature Vertex where
  signature
    | method s => s
    | cluster _ main => main

def method? : Vertex → Option Signature
  | method s => some s
  | cluster .. => none

end Vertex

open HasSignature

inductive ClusterFault where
  | empty
  /-- The calls of a cluster are those of its members. -/
  | derivedCalls
  deriving DecidableEq

def ClusterFault.message : ClusterFault → String
  | empty => "A cluster should comprise at least 1 node."
  | derivedCalls => "Edges of a cluster node are derived from its constituents"

structure ClusteredGraph where
  graph : CallGraph Vertex := {}
  /-- Members of the clusters, in the order of their numbers. -/
  members : List (List Vertex) := []

namespace ClusteredGraph

def ofEdges (edges : List (Signature × List Signature)) : ClusteredGraph :=
  { graph := .ofEdges (edges.map fun (s, callees) => (.method s, callees.map .method)) }

def methods (g : ClusteredGraph) : List Signature :=
  g.graph.ids.filterMap (·.method?)

def methodGraph (g : ClusteredGraph) : CallGraph Signature :=
  ⟨g.graph.nodes.filterMap fun n => n.id.method?.map fun s =>
    { id := s, callees := n.callees.map signature, callers := n.callers.map signature }⟩

def createMethod (g : ClusteredGraph) (s : Signature) : ClusteredGraph :=
  { g with graph := g.graph.create (.method s) }

def addCall (g : ClusteredGraph) (caller callee : Signature) : ClusteredGraph :=
  { g with
    graph :=
      ((g.graph.create (.method caller)).create (.method callee)).addEdge (.method caller)
        (.method callee) }

def addCallFrom (g : ClusteredGraph) (caller : Vertex) (callee : Signature) :
    Except ClusterFault ClusteredGraph :=
  match caller with
  | .method s => .ok (g.addCall s callee)
  | .cluster .. => .error .derivedCalls

def removeCall (g : ClusteredGraph) (caller callee : Vertex) : ClusteredGraph :=
  { g with graph := g.graph.removeEdge caller callee }

def calls (g : ClusteredGraph) (caller callee : Vertex) : Bool :=
  (g.graph.callees caller).contains callee

def cluster? (g : ClusteredGraph) : Vertex → Option (Cluster Vertex)
  | .method _ => none
  | v@(.cluster number main) =>
    g.members[number]?.map fun members =>
      { main, members, callers := g.graph.callers v, callees := g.graph.callees v }

def addCluster (g : ClusteredGraph) (members : List Vertex) :
    Except ClusterFault (Vertex × ClusteredGraph) :=
  match Cluster.ofNodes? g.graph members with
  | none => .error .empty
  | some c =>
    let v : Vertex := .cluster g.members.length c.main
    .ok (v,
      { graph := ⟨g.graph.nodes ++ [{ id := v, callees := c.callees, callers := c.callers }]⟩
        members := g.members ++ [members] })

def describe (g : ClusteredGraph) (v : Vertex) : String :=
  let key := (signature v).key
  match g.cluster? v with
  | some c =>
    "ClusterNode(" ++ key ++ ": " ++ String.intercalate ", " (c.signatures.map (·.key)) ++ ")"
  | none => "CallGraphNode(" ++ key ++ ")"

def setMembers (g : ClusteredGraph) (v : Vertex) (members : List Vertex) : ClusteredGraph :=
  match v, g.cluster? v with
  | .cluster number _, some c =>
    let c := c.setMembers g.graph members
    { graph := g.graph.modify v fun n => { n with callees := c.callees, callers := c.callers }
      members := g.members.set number members }
  | _, _ => g

/-- What vertices are compared by: methods by signature and calls, clusters by their signatures. -/
inductive Likeness where
  | method (s : Signature) (callees : List Signature)
  | cluster (main : Signature) (members : List Signature)
  deriving DecidableEq

def likeness? (g : ClusteredGraph) (v : Vertex) : Option Likeness :=
  match g.cluster? v with
  | some c => some (.cluster c.main c.signatures)
  | none => (g.graph.node? v).map fun n => .method (signature n.id) (n.callees.map signature)

end ClusteredGraph

end CallerFirst
