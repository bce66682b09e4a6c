import CallerFirst.Cluster
import CallerFirst.Comparator.Criteria
import CallerFirst.Config.Preferences

/-!
# The order of the methods of a unit

The working list says where traversals start. The priorities become a stack of comparators over it;
a traversal may prune the graph, and criteria behind it see the pruned graph. Clusters are sorted by
the same rules on their own calls.
-/

namespace CallerFirst

namespace CallGraph

/-- Comparator for a priority over the nodes of a working list, and the graph behind it. -/
def criterion (p : Preferences) (unit : Node) (nodes : List Signature) (g : CallGraph Signature) :
    Priority → Comparator × CallGraph Signature
  | .invocation =>
    let a := Arrangement.traverse p.placement p.strategy { graph := g } nodes
    (.ranks (.ofArrangement a.ordered), a.graph)
  | .accessLevel => (.ranks (.access unit), g)
  | .constructor => (.ranks (.constructors unit), g)
  | .fanOut => (.ranks (.fanOut g nodes), g)
  | .initializer => (.ranks (.initializers unit), g)
  | .lexical => (.lexical, g)
  | .roots => (.ranks (.roots g nodes), g)
  | .sourcePosition => (.ranks (.sourcePosition unit), g)
  | .reachability => (.reachability (g.reachability nodes), g)
  | .fanIn => (.ranks (.fanIn g nodes), g)
  | .fanInFanOutRate => (.ranks (.fanRate g nodes), g)
  | .leaves => (.ranks (.leaves g nodes), g)

def criteria (p : Preferences) (unit : Node) (nodes : List Signature) :
    CallGraph Signature → List Priority → List Comparator × CallGraph Signature
  | g, [] => ([], g)
  | g, priority :: rest =>
    let (c, g) := g.criterion p unit nodes priority
    let (cs, g) := criteria p unit nodes g rest
    (c :: cs, g)

/-- Comparator for the working list: start points first, or source order. -/
def workingComparator (p : Preferences) (unit : Node) (g : CallGraph Signature) : Comparator :=
  let nodes := g.ids
  let layers : List RankTable :=
    match p.startpoints with
    | .heuristic =>
      [.initializers unit, .constructors unit, .roots g nodes, .access unit, .fanOut g nodes,
       .sourcePosition unit]
    | .user => [.sourcePosition unit]
  .stack nodes (layers.map .ranks)

def workingList (p : Preferences) (unit : Node) (g : CallGraph Signature) : List Signature :=
  (g.workingComparator p unit).sort g.ids

def methodStack (p : Preferences) (unit : Node) (nodes : List Signature)
    (g : CallGraph Signature) : Comparator × CallGraph Signature :=
  let (layers, g) := g.criteria p unit nodes p.priorities
  (.stack nodes layers, g)

end CallGraph

namespace Cluster

def sortMembers (p : Preferences) (unit : Node) (g : CallGraph Signature)
    (c : Cluster Signature) : Cluster Signature :=
  if c.members.length ≤ 1 then c
  else
    let inner := CallGraph.ofUnitWithin c.members unit
    let nodes := inner.workingList p unit
    let ordered := (inner.methodStack p unit nodes).1.sort inner.ids
    let found := ordered.filter c.members.contains
    c.setMembers g (found ++ c.members.filter (!found.contains ·))

end Cluster

structure MethodComparison where
  comparator : Comparator
  clusters : List (Cluster Signature) := []

namespace MethodComparison

def ofPreferences (p : Preferences) (unit : Node) (g : CallGraph Signature) : MethodComparison :=
  let nodes := g.workingList p unit
  let (stack, g) := g.methodStack p unit nodes
  if p.isClustering then
    let rules : Cluster.Rules := ⟨p.clusterGetterSetter, p.clusterOverloaded⟩
    let clusters := (Cluster.ofUnit rules g nodes unit).map (·.sortMembers p unit g)
    { comparator := .clustered stack (clusters.map (·.ranks)), clusters }
  else { comparator := stack }

def ofSeed (seed : Int) (g : CallGraph Signature) : MethodComparison :=
  { comparator := .stack g.ids [.ranks (.random seed g.ids)] }

end MethodComparison

end CallerFirst
