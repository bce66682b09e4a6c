import CallerFirst.Comparator
import CallerFirst.Config.Preferences

/-!
# Order of the members of a body

Fields, enum constants, initializer blocks and types keep their order among each other. Otherwise
members are ordered by category, and methods of one category by a comparator of their signatures.
-/

namespace CallerFirst

namespace Node

def category? : Node → Option Category
  | method _ header _ => some (if header.isConstructor then .constructors else .methods)
  | field .. => some .fields
  | initializer _ isStatic _ => some (if isStatic then .staticInitializers else .initializers)
  | type .. => some .types
  | enumConstant .. => some .enumConstants
  | annotationMember .. => some .annotationMembers
  | unit .. | anonymousClass .. | call .. => none

def isMember (n : Node) : Bool :=
  n.category?.isSome

def keepsOrder : Node → Bool
  | field .. | enumConstant .. | initializer .. | type .. => true
  | _ => false

def isPlainMethod : Node → Bool
  | method _ header _ => !header.isConstructor
  | _ => false

def signature? : Node → Option Signature
  | method _ header _ => some (.ofMethod header)
  | _ => none

def describe (n : Node) : String :=
  match n.signature? with
  | some s => s.key
  | none =>
    let name :=
      match n with
      | field _ _ names _ _ => String.intercalate ", " names
      | n => n.name
    n.kind.name ++ ":" ++ if name.isEmpty then toString n.place.index else name

end Node

structure MemberOrder where
  comparator : Comparator
  known : List Signature
  ranks : CategoryRanks := {}
  /-- Only methods move, and only among their own places. -/
  methodsOnly : Bool := false

namespace MemberOrder

def sourceOrder (m n : Node) : Int :=
  m.place.index - n.place.index

def rank (o : MemberOrder) (n : Node) : Int :=
  (n.category?.map o.ranks.get).getD 0

def knows (o : MemberOrder) (a b : Signature) : Bool :=
  o.known.contains a && o.known.contains b

def compareAll (o : MemberOrder) (m n : Node) : Int :=
  if m.keepsOrder && n.keepsOrder then sourceOrder m n
  else if o.rank m ≠ o.rank n then o.rank m - o.rank n
  else
    match m.signature?, n.signature? with
    | some a, some b =>
      let verdict := if o.knows a b then o.comparator.compare a b else 0
      if verdict = 0 then sourceOrder m n else verdict
    | _, _ => sourceOrder m n

/-- Three-way comparison that leaves all but methods in source order. -/
def compareMethods (o : MemberOrder) (m n : Node) : Int :=
  match m.signature?, n.signature? with
  | some a, some b =>
    if m.isPlainMethod && n.isPlainMethod && o.knows a b then o.comparator.compare a b
    else sourceOrder m n
  | _, _ => sourceOrder m n

def compare (o : MemberOrder) (m n : Node) : Int :=
  if o.methodsOnly then o.compareMethods m n else o.compareAll m n

def showBool (b : Bool) : String :=
  if b then "True" else "False"

def methodWarnings (o : MemberOrder) (a b : Signature) : List String :=
  if o.knows a b then
    o.comparator.warnings a b ++
      if o.comparator.compare a b = 0 && a ≠ b then
        ["No absolute compare value between [" ++ a.key ++ "] and [" ++ b.key ++ "]"]
      else []
  else
    ["A method signature was not known: " ++ a.key ++ " known=" ++ showBool (o.known.contains a) ++
      ", " ++ b.key ++ " known=" ++ showBool (o.known.contains b)]

def warnings (o : MemberOrder) (m n : Node) : List String :=
  match m.signature?, n.signature? with
  | some a, some b =>
    if o.methodsOnly then
      if m.isPlainMethod && n.isPlainMethod && o.knows a b then o.comparator.warnings a b else []
    else if o.rank m = o.rank n then o.methodWarnings a b
    else []
  | _, _ => []

def tag (members : List Node) : List (Nat × Node) :=
  members.mapIdx fun i n => (i, n)

def sortTagged (o : MemberOrder) (members : List (Nat × Node)) : List (Nat × Node) :=
  Sorting.sortBy (fun a b => o.compare a.2 b.2) members

def refill (condition : α → Bool) : List α → List α → List α
  | [], _ => []
  | a :: rest, supply =>
    if condition a then
      match supply with
      | b :: supply => b :: refill condition rest supply
      | [] => a :: refill condition rest []
    else a :: refill condition rest supply

/-- Members in order, each with its place in the given list. -/
def sort (o : MemberOrder) (members : List Node) : List (Nat × Node) :=
  let tagged := tag members
  if o.methodsOnly then
    let methods := tagged.filter (·.2.isPlainMethod)
    refill (·.2.isPlainMethod) tagged (o.sortTagged methods)
  else o.sortTagged tagged

def orderedSignatures (o : MemberOrder) : List Signature :=
  let signatures := (o.known.filter (!·.isSynthetic)).eraseDups
  o.comparator.sort (Sorting.sort (fun a b => a < b) signatures)

end MemberOrder

end CallerFirst
