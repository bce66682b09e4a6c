import CallerFirst.Java.Unit
import CallerFirst.Layout
import CallerFirst.Member
import CallerFirst.MethodOrder

/-!
# Ordering a unit

A sorter takes a unit to its text with the members in order, and says what it found on the way. A
unit whose declarations do not fit its source is left as it is.
-/

namespace CallerFirst

/-- How methods are ordered: by preferences, or at random for comparison. Nothing can be drawn by a
seed that was left empty. -/
inductive Sorter where
  | preferred
  | random (seed : Option Int)

structure Outcome where
  path : Option String := none
  source : String
  sortedSource : String
  ordering : List Signature := []
  /-- Calls as they were before any was dropped. -/
  calls : List (Signature × List Signature) := []
  clusters : List (Cluster Signature) := []
  /-- Why the unit was left as it is. -/
  skipped : Option Malformed := none
  written : Bool := false

namespace Outcome

def changed (o : Outcome) : Bool :=
  o.sortedSource != o.source

def edgeCount (o : Outcome) : Nat :=
  (o.calls.map (·.2.length)).foldr (· + ·) 0

def unread (path : Option String) (source : String) (reason : Malformed) : Outcome :=
  { path, source, sortedSource := source, skipped := some reason }

end Outcome

inductive Irregular where
  /-- A node stands among members that is none. -/
  | notMember
  /-- A node lacks what its place asks for. -/
  | incomplete
  deriving DecidableEq

inductive SortFault where
  | source (fault : Java.Fault)
  | tree (fault : Irregular)
  | noSeed

namespace Node

/-- The first type of a unit that is at its own level. -/
def topLevelType : Node → Except Irregular (Option Node)
  | unit _ _ types => firstTopLevel types
  | _ => .error .incomplete
where
  firstTopLevel : List Node → Except Irregular (Option Node)
    | [] => .ok none
    | n :: rest =>
      match n with
      | type _ header _ =>
        if header.binding.all (·.isPrimary) then .ok (some n) else firstTopLevel rest
      | anonymousClass binding _ =>
        if binding.all (·.isPrimary) then .ok (some n) else firstTopLevel rest
      | call _ _ none _ => .ok (some n)
      | _ => .error .incomplete

def members : Node → Except Irregular (List Node)
  | type _ _ members => .ok members
  | anonymousClass _ members => .ok members
  | _ => .error .incomplete

def membersStart : Node → Except Irregular Int
  | type _ header _ => .ok header.membersStart
  | _ => .error .incomplete

def source : Node → Except Irregular String
  | unit source _ _ => .ok source
  | _ => .error .incomplete

end Node

namespace MemberOrder

def reorderUnit (o : MemberOrder) (unit : Node) :
    Except Irregular (Except Malformed (List Char)) := do
  let source := (← unit.source).toList
  match ← unit.topLevelType with
  | none => return .ok source
  | some top =>
    let members := (← top.members).filter (·.mayMove)
    if members.length < 2 then return .ok source
    if !members.all (·.isMember) then
      throw (if o.methodsOnly then .incomplete else .notMember)
    let tagged (ns : List (Nat × Node)) : List Layout.Tagged := ns.map fun (i, n) => (i, n.place)
    let old := tagged (tag members)
    let new := tagged (o.sort members)
    if Layout.indices new = Layout.indices old then return .ok source
    return Layout.reorder source (← top.membersStart) old new

end MemberOrder

namespace Sorter

def comparison (s : Sorter) (p : Preferences) (unit : Node) (g : CallGraph Signature) :
    MethodComparison :=
  match s with
  | preferred => .ofPreferences p unit g
  | random seed => .ofSeed (seed.getD 0) g

def canSort : Sorter → Bool
  | preferred => true
  | random seed => seed.isSome

def memberOrder (s : Sorter) (p : Preferences) (c : Comparator) (known : List Signature) :
    MemberOrder :=
  { comparator := c
    known
    ranks := p.categoryRanks
    methodsOnly := match s with
      | preferred => false
      | random _ => true }

def sortUnit (s : Sorter) (p : Preferences) (path : Option String) (unit : Node) :
    Except Irregular Outcome := do
  let g := CallGraph.ofUnit unit
  let comparison := s.comparison p unit g
  let order := s.memberOrder p comparison.comparator g.ids
  let source ← unit.source
  let outcome : Outcome :=
    { path
      source
      sortedSource := source
      ordering := order.orderedSignatures
      calls := g.nodes.map fun n => (n.id, n.callees)
      clusters := comparison.clusters }
  match ← order.reorderUnit unit with
  | .ok text => return { outcome with sortedSource := String.ofList text }
  | .error reason => return { outcome with skipped := some reason }

def sortSource (s : Sorter) (p : Preferences) (path : Option String) (source : String) :
    Except SortFault Outcome :=
  match Java.readUnit source with
  | .ok unit => if s.canSort then (s.sortUnit p path unit).mapError .tree else .error .noSeed
  | .error (.malformed reason) => .ok (.unread path source reason)
  | .error fault => .error (.source fault)

/-- Orders a source several times, each time from what the last came to. -/
def sortRepeatedly (s : Sorter) (p : Preferences) (path : Option String) :
    Nat → String → Except SortFault (List Outcome)
  | 0, _ => .ok []
  | passes + 1, source => do
    let outcome ← s.sortSource p path source
    return outcome :: (← sortRepeatedly s p path passes outcome.sortedSource)

end Sorter

end CallerFirst
