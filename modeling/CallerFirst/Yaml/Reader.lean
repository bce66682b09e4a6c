import CallerFirst.Yaml.Document

/-!
# Reading documents

The value of a document. Faults are found level by level: one further out counts before one further
in, and on one level the first counts.
-/

namespace CallerFirst.Yaml

/-! ### Maps -/

/-- The number that a value is, if it is one; truth values are zero and one. -/
def number? : Value → Option Binary64 × Option Rat
  | .int n => (none, some n)
  | .bool b => (none, some (if b then 1 else 0))
  | .float x => (some x, x.toRat?)
  | _ => (none, none)

/-- Keys that count as one. Numbers do so by value, whatever their type. -/
def sameKey : Value → Value → Bool
  | .null, .null => true
  | .text s, .text t | .unpaired s, .unpaired t => s == t
  | .bytes a, .bytes b => a == b
  | .date d, .date e => d == e
  | .moment t, .moment u => t.isSame u
  | a, b =>
    match number? a, number? b with
    | (_, some m), (_, some n) => m == n
    | (some x, none), (some y, none) => x == y
    | _, _ => false

/-- Adds a pair to a map; a key that is there keeps its place and gets the new value. -/
def insertPair (entries : List (Value × Value)) (pair : Value × Value) : List (Value × Value) :=
  if entries.any fun e => sameKey e.1 pair.1 then
    entries.map fun e => if sameKey e.1 pair.1 then (e.1, pair.2) else e
  else entries ++ [pair]

def isKey : Value → Bool
  | .list _ | .map _ | .set _ | .enclosing _ => false
  | _ => true

namespace Node

mutual
/-- The pairs of a map, those that are merged into it in front; nothing if a merged node is no map. A
map that encloses another adds nothing to it. -/
def merged? : Node → Option (List (Node × Node))
  | map _ pairs => (mergedPairs? pairs).map fun (others, own) => others ++ own
  | enclosing true => some []
  | _ => none
def mergedPairs? : List (Node × Node) → Option (List (Node × Node) × List (Node × Node))
  | [] => some ([], [])
  | (key, value) :: rest =>
    match mergedPairs? rest with
    | none => none
    | some (others, own) =>
      if key.tag? == some Tag.merge then
        match value with
        | list _ items => (mergedItems? items).map fun pairs => (pairs ++ others, own)
        | value => (merged? value).map fun pairs => (pairs ++ others, own)
      else some (others, (key, value) :: own)
def mergedItems? : List Node → Option (List (Node × Node))
  | [] => some []
  | item :: rest =>
    match merged? item, mergedItems? rest with
    | some pairs, some others => some (others ++ pairs)
    | _, _ => none
end

/-- A node as a key: the mark of a map's own value is a text there. -/
def asKey : Node → Node
  | scalar tag content => scalar (if tag == Tag.value then Tag.text else tag) content
  | node => node

mutual
/-- What a scalar spells, or the value that a map has for itself. -/
def content? : Node → Option Content
  | scalar _ content => some content
  | map _ pairs => ownContent? pairs
  | _ => none
def ownContent? : List (Node × Node) → Option Content
  | [] => none
  | (key, value) :: rest => if key.tag? == some Tag.value then content? value else ownContent? rest
end

end Node

/-! ### Values -/

/-- A value with the faults in it and the levels they are on. -/
structure Built (α : Type) where
  value : α
  faults : List (Nat × Fault) := []

namespace Built

def ofExcept (level : Nat) : Except Fault Value → Built Value
  | .ok value => { value }
  | .error fault => { value := .null, faults := [(level, fault)] }

/-- Of no use, because the node is not what it has to be. -/
def failed (level : Nat) (value : α) : Built α :=
  { value, faults := [(level, .malformed)] }

def map (f : α → β) (b : Built α) : Built β :=
  { value := f b.value, faults := b.faults }

def sequence (items : List (Built α)) : Built (List α) :=
  { value := items.map (·.value), faults := items.flatMap (·.faults) }

def entry (level : Nat) (key value : Built Value) : Built (Value × Value) :=
  let own := if isKey key.value then [] else [(level, Fault.malformed)]
  { value := (key.value, value.value), faults := key.faults ++ own ++ value.faults }

def fault? (b : Built α) : Option Fault :=
  (b.faults.foldl (fun (best : Option (Nat × Fault)) f =>
    match best with
    | some g => if f.1 < g.1 then some f else best
    | none => some f) none).map Prod.snd

end Built

def scalarOf (tag : String) (node : Node) : Except Fault Value :=
  match node.content?, node with
  | none, _ => .error .malformed
  | some content, .map _ _ =>
    if tag == Tag.timestamp then .error .timestampOfMap else scalarValue tag content
  | some content, _ => scalarValue tag content

/-- The value of a node on a level. A collection's content is one level further in. -/
def build : Nat → Nat → Node → Built Value
  | 0, level, _ => .failed level .null
  | depth + 1, level, node =>
    let inner := build depth (level + 1)
    let items (f : List Node → Built (List Value)) : Built Value :=
      match node with
      | .list _ nodes => (f nodes).map .list
      | _ => .failed (level + 1) (.list [])
    let entries : Built (List (Value × Value)) :=
      match node.merged? with
      | some pairs =>
        (Built.sequence (pairs.map fun (k, v) => .entry (level + 1) (inner k.asKey) (inner v))).map
          (·.foldl insertPair [])
      | none => .failed (level + 1) []
    match node.tag? with
    | none => { value := .enclosing (node matches .enclosing true) }
    | some tag =>
      if tag == Tag.list then items fun nodes => .sequence (nodes.map inner)
      else if tag == Tag.map then entries.map .map
      else if tag == Tag.set then entries.map fun pairs => .set (pairs.map Prod.fst)
      else if tag == Tag.orderedMap || tag == Tag.pairs then
        items fun nodes => .sequence (nodes.map fun node =>
          match node with
          | .map _ [(k, v)] =>
            let (k, v) := (inner k, inner v)
            { value := .pair k.value v.value, faults := k.faults ++ v.faults }
          | _ => .failed (level + 1) .null)
      else .ofExcept level (scalarOf tag node)

/-- The value of a text; an empty one holds nothing. -/
def read (text : List Char) : Except Fault Value := do
  match ← Node.ofText text with
  | none => return .null
  | some node =>
    let built := build node.height 0 node
    match built.fault? with
    | some fault => throw fault
    | none => return built.value

end CallerFirst.Yaml
