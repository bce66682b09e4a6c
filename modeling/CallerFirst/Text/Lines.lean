/-!
# Lines and slices of a text
-/

namespace CallerFirst.Text

def lineStartsFrom (offset : Nat) : List Char → List Nat
  | [] => []
  | c :: rest =>
    if c == '\n' then (offset + 1) :: lineStartsFrom (offset + 1) rest
    else lineStartsFrom (offset + 1) rest

def lineStarts (text : List Char) : List Nat :=
  0 :: lineStartsFrom 0 text

/-- The characters from `start` up to `stop`; places behind the end count as the end. -/
def slice (text : List α) (start stop : Nat) : List α :=
  (text.take stop).drop start

/-- The offset that a place in a text of some length stands for: places below zero count from the
end, and places beyond an end count as that end. -/
def offsetOf (length : Nat) (place : Int) : Nat :=
  if place < 0 then (length + place).toNat else min place.toNat length

def between (text : List α) (start stop : Int) : List α :=
  slice text (offsetOf text.length start) (offsetOf text.length stop)

def before (text : List α) (place : Int) : List α :=
  text.take (offsetOf text.length place)

def behind (text : List α) (place : Int) : List α :=
  text.drop (offsetOf text.length place)

/-- The position that an index into a list of some length stands for: indices below zero count from
the end. -/
def position? (length : Nat) (index : Int) : Option Nat :=
  let position := if index < 0 then length + index else index
  if 0 ≤ position && position < length then some position.toNat else none

def elementAt? (elements : List α) (index : Int) : Option α :=
  (position? elements.length index).bind (elements[·]?)

def find? (word : List Char) : List Char → Option Nat
  | [] => if word.isEmpty then some 0 else none
  | c :: rest =>
    if word.isPrefixOf (c :: rest) then some 0 else (find? word rest).map (· + 1)

end CallerFirst.Text
