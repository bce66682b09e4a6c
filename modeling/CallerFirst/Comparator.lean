import CallerFirst.CallGraph
import CallerFirst.Rank
import CallerFirst.Sorting

/-!
# Comparators of signatures

Three-way comparisons: below zero means before. A stack asks its layers in turn and takes the first
verdict that is not zero.
-/

namespace CallerFirst

structure ClusterRanks where
  main : Signature
  ranks : RankTable

inductive Comparator where
  | ranks (table : RankTable)
  | lexical
  | null
  /-- What is reachable from each signature known here. -/
  | reachability (reached : List (Signature × List Signature))
  | stack (known : List Signature) (layers : List Comparator)
  /-- Clusters by their main signatures, and members within a cluster by their ranks. Of two
  clusters with one member the later counts, and clusters are told apart by their place in the list.
  -/
  | clustered (outer : Comparator) (clusters : List ClusterRanks)

namespace Comparator

instance : Inhabited Comparator := ⟨.null⟩

def compareKeys (a b : Signature) : Int :=
  if a < b then -1 else if b < a then 1 else 0

/-- `a` comes first if it reaches `b` and `b` does not reach it. -/
def compareReach (reached : List (Signature × List Signature)) (a b : Signature) : Int :=
  match reached.lookup a, reached.lookup b with
  | some fromA, some fromB =>
    match fromA.contains b, fromB.contains a with
    | true, false => -1
    | false, true => 1
    | _, _ => 0
  | _, _ => 0

def clusterOf? (clusters : List ClusterRanks) (s : Signature) : Option (Nat × ClusterRanks) :=
  ((clusters.mapIdx fun i c => (i, c)).filter fun (_, c) => c.ranks.contains s).getLast?

mutual
def compare : Comparator → Signature → Signature → Int
  | ranks table, a, b => table.compare a b
  | lexical, a, b => compareKeys a b
  | null, _, _ => 0
  | reachability reached, a, b => compareReach reached a b
  | stack known layers, a, b =>
    if known.contains a && known.contains b then firstVerdict layers a b else 0
  | clustered outer clusters, a, b =>
    match clusterOf? clusters a, clusterOf? clusters b with
    | some (i, c), some (j, d) =>
      if i = j then c.ranks.compare a b else compare outer c.main d.main
    | _, _ => 0
def firstVerdict : List Comparator → Signature → Signature → Int
  | [], _, _ => 0
  | layer :: rest, a, b =>
    let verdict := compare layer a b
    if verdict = 0 then firstVerdict rest a b else verdict
end

def showVerdicts (verdicts : List Int) : String :=
  "[" ++ String.intercalate ", " (verdicts.map toString) ++ "]"

def undecided (a b : Signature) (layers : Nat) : List String :=
  ["No ordering between [" ++ a.key ++ "] and [" ++ b.key ++ "]! CompResults: " ++
      showVerdicts (List.replicate layers 0),
    "We have " ++ toString layers ++ " comparators in this stackable comparator."]

mutual
/-- Warnings of a comparison. Undecided pairs with a synthetic signature are no cause for one. -/
def warnings : Comparator → Signature → Signature → List String
  | ranks _, _, _ | lexical, _, _ | null, _, _ | reachability _, _, _ => []
  | stack known layers, a, b =>
    if known.contains a && known.contains b then
      layerWarnings layers a b ++
        if firstVerdict layers a b = 0 && a ≠ b && !a.isSynthetic && !b.isSynthetic then
          undecided a b layers.length
        else []
    else []
  | clustered outer clusters, a, b =>
    match clusterOf? clusters a, clusterOf? clusters b with
    | some (i, c), some (j, d) => if i = j then [] else warnings outer c.main d.main
    | _, _ => []
def layerWarnings : List Comparator → Signature → Signature → List String
  | [], _, _ => []
  | layer :: rest, a, b =>
    warnings layer a b ++ if compare layer a b = 0 then layerWarnings rest a b else []
end

def ranks? : Comparator → Option RankTable
  | ranks table => some table
  | _ => none

def layers : Comparator → List Comparator
  | stack _ layers => layers
  | _ => []

def addLayer : (c layer : Comparator) → Comparator
  | stack known layers, layer => stack known (layers ++ [layer])
  | c, _ => c

def putRank (index : Nat) (s : Signature) (r : Rank) : Comparator → Comparator
  | stack known layers =>
    stack known (layers.modify index fun
      | ranks table => ranks (table.put s r)
      | layer => layer)
  | c => c

def sort (c : Comparator) (xs : List Signature) : List Signature :=
  Sorting.sortBy c.compare xs

end Comparator

end CallerFirst
