import CallerFirst.Yaml.Tag

/-!
# Nodes

A document is a tree of scalars, lists and maps, each with the tag that says what it means.
-/

namespace CallerFirst.Yaml

structure Content where
  text : List Char := []
  /-- Halves of surrogate pairs are in the text. -/
  halves : Bool := false

inductive Node where
  | scalar (tag : String) (content : Content)
  | list (tag : String) (items : List Node)
  | map (tag : String) (pairs : List (Node × Node))
  /-- The list or map that this stands in, directly or further up. -/
  | enclosing (isMap : Bool)

namespace Node

instance : Inhabited Node := ⟨.enclosing false⟩

def tag? : Node → Option String
  | scalar tag _ | list tag _ | map tag _ => some tag
  | enclosing _ => none

mutual
def height : Node → Nat
  | scalar _ _ | enclosing _ => 1
  | list _ items => heightOfItems items + 1
  | map _ pairs => heightOfPairs pairs + 1
def heightOfItems : List Node → Nat
  | [] => 0
  | n :: rest => max (height n) (heightOfItems rest)
def heightOfPairs : List (Node × Node) → Nat
  | [] => 0
  | (k, v) :: rest => max (max (height k) (height v)) (heightOfPairs rest)
end

end Node

namespace Tag

def null : String := coreTags ++ "null"
def bool : String := coreTags ++ "bool"
def int : String := coreTags ++ "int"
def float : String := coreTags ++ "float"
def timestamp : String := coreTags ++ "timestamp"
def text : String := coreTags ++ "str"
def binary : String := coreTags ++ "binary"
def list : String := coreTags ++ "seq"
def map : String := coreTags ++ "map"
def set : String := coreTags ++ "set"
def orderedMap : String := coreTags ++ "omap"
def pairs : String := coreTags ++ "pairs"
/-- A key whose value takes part in the map as if its pairs stood there. -/
def merge : String := coreTags ++ "merge"
/-- A key whose value stands for the map where a scalar is needed. -/
def value : String := coreTags ++ "value"

end Tag

end CallerFirst.Yaml
