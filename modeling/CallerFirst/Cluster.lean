import CallerFirst.CallGraph.Declared
import CallerFirst.Comparator

/-!
# Clusters of methods

Methods that stay together: a setter with its getters, a getter with its setters, or the overloads
of a name. The first method of a cluster gives it its main signature, whatever the order of its
members later is.
-/

namespace CallerFirst

structure Cluster (ν : Type) where
  main : Signature
  members : List ν
  callers : List ν := []
  callees : List ν := []

namespace Method

def hasSetterPattern (m : Method) : Bool :=
  "set".toList.isPrefixOf m.name.toList && m.parameters.length == 1

def hasGetterPattern (m : Method) : Bool :=
  "get".toList.isPrefixOf m.name.toList && m.parameters.isEmpty

/-- The getter and the setter are of one property: what follows the first three characters of their
names is the same and not empty, and the getter returns what the setter takes. -/
def isGetterOf (getter setter : Method) : Bool :=
  let property (m : Method) := m.name.toList.drop 3
  !(property getter).isEmpty && property getter == property setter &&
    match setter.parameters with
    | [] => false
    | p :: _ => some p.typeText == getter.returnType

end Method

namespace Cluster

section Members

variable {ν : Type} [DecidableEq ν] [HasSignature ν]

open HasSignature

def signatures (c : Cluster ν) : List Signature :=
  c.members.map signature

def appendNew (target nodes : List ν) : List ν :=
  nodes.foldl (fun target v => if target.contains v then target else target ++ [v]) target

/-- Replaces the members. Callers and callees of the new ones are added to those there were. -/
def setMembers (c : Cluster ν) (g : CallGraph ν) (members : List ν) : Cluster ν :=
  { c with
    members
    callers := members.foldl (fun xs v => appendNew xs (g.callers v)) c.callers
    callees := members.foldl (fun xs v => appendNew xs (g.callees v)) c.callees }

def ofNodes? (g : CallGraph ν) : List ν → Option (Cluster ν)
  | [] => none
  | v :: rest => some (setMembers { main := signature v, members := [] } g (v :: rest))

def ranks (c : Cluster ν) : ClusterRanks :=
  { main := c.main
    ranks := .ofList (c.signatures.mapIdx fun i s => (s, .finite i)) false }

end Members

structure Rules where
  gettersSetters : Bool
  overloaded : Bool

def attracts (rules : Rules) (seed other : Method) : Bool :=
  if rules.gettersSetters && seed.hasSetterPattern then
    other.hasGetterPattern && other.isGetterOf seed
  else if rules.gettersSetters && seed.hasGetterPattern then
    other.hasSetterPattern && seed.isGetterOf other
  else rules.overloaded && other.name == seed.name

def gather (rules : Rules) (seed : Method) (clustered : List Signature) (methods : List Method) :
    List Signature :=
  methods.foldl (fun members m =>
    let s := Signature.ofMethod m
    if clustered.contains s || members.contains s || !attracts rules seed m then members
    else members ++ [s]) [Signature.ofMethod seed]

def partition (rules : Rules) (methods : List Method) : List Signature → List Method → List (List Signature)
  | _, [] => []
  | clustered, seed :: rest =>
    if clustered.contains (.ofMethod seed) then partition rules methods clustered rest
    else
      let members := gather rules seed clustered methods
      members :: partition rules methods (clustered ++ members) rest

def ofUnit (rules : Rules) (g : CallGraph Signature) (nodes : List Signature) (unit : Node) :
    List (Cluster Signature) :=
  let methods := (Declared.ofUnit unit).methods.filter fun m => nodes.contains (.ofMethod m)
  (partition rules methods [] methods).filterMap (ofNodes? g)

end Cluster

end CallerFirst
