import CallerFirst.Malformed
import CallerFirst.Sorting
import CallerFirst.Text.Lines
import CallerFirst.Tree

/-!
# Moving members in the text

The text of a body is cut into slots: the gap in front of a member, and a chunk that is the member
with the comments above it. Chunks move; gaps stay where they are, except that a member which moves
next to another on the same line gets a line of its own.
-/

namespace CallerFirst

/-- Enum constants stay in front. -/
def Node.mayMove : Node → Bool
  | enumConstant .. => false
  | _ => true

structure Slot where
  gap : List Char
  chunk : List Char
  deriving DecidableEq

namespace Layout

/-- Characters that belong to gaps; stray semicolons are among them. -/
def isGapChar (c : Char) : Bool :=
  c == ' ' || c == '\t' || c == '\r' || c == '\n' || c == '\x0c' || c == ';'

/-- Offset where the comments above a member begin, behind the member before. -/
def attachedStart (source : List Char) (previousEnd start : Int) : Int :=
  previousEnd + ((Text.between source previousEnd start).takeWhile isGapChar).length

def lastLine (gap : List Char) : List Char :=
  let newline := if (Text.find? ['\r', '\n'] gap).isSome then ['\r', '\n'] else ['\n']
  newline ++ (gap.reverse.takeWhile (· != '\n')).reverse

/-- Blank space that puts a member on its own line, as in the nearest slot that starts one: slots in
front are asked before those behind. Without such a slot the gap stays. -/
def lineBreakFor (slots : List Slot) (position : Int) : Option (List Char) :=
  let candidates := (Text.before slots position).reverse ++ Text.behind slots (position + 1)
  match candidates.find? (·.gap.contains '\n') with
  | some slot => some (lastLine slot.gap)
  | none => (Text.elementAt? slots position).map (·.gap)

def slots (source : List Char) : Int → List Place → Except Malformed (List Slot)
  | _, [] => .ok []
  | previousEnd, p :: rest =>
    if p.start < previousEnd || p.stop < p.start then .error (.overlap p.start p.stop)
    else do
      let chunkStart := attachedStart source previousEnd p.start
      let slot : Slot :=
        ⟨Text.between source previousEnd chunkStart, Text.between source chunkStart p.stop⟩
      return slot :: (← slots source p.stop rest)

/-- Chunk of the member with an index; of several the last counts. -/
def chunkOf (places : List Place) (slots : List Slot) (index : Int) : List Char :=
  ((((places.zip slots).filter (·.1.index == index)).getLast?).map (·.2.chunk)).getD []

def fill (slots : List Slot) (position : Nat) (moved : Bool) (chunk : List Char) : List Char :=
  match slots[position]? with
  | none => chunk
  | some slot =>
    let gap :=
      if moved && !slot.gap.contains '\n' then (lineBreakFor slots position).getD [] else slot.gap
    gap ++ chunk

abbrev Tagged := Nat × Place

def indices (members : List Tagged) : List Int :=
  members.map (·.2.index)

def ascending (ns : List Int) : List Int :=
  Sorting.sort (fun a b => a < b) ns

/-- The text with its members, which stand behind `membersStart`, in a new order. Both lists give
each member its number; their chunks are told apart by index. -/
def reorder (source : List Char) (membersStart : Int) (members ordered : List Tagged) :
    Except Malformed (List Char) := do
  if members.length < 2 || indices ordered = indices members then return source
  if ascending (indices ordered) ≠ ascending (indices members) then throw .notPermutation
  let places := members.map Prod.snd
  let slots ← slots source membersStart places
  let filled := (members.zip ordered).mapIdx fun i (old, new) =>
    fill slots i (new.1 != old.1) (chunkOf places slots new.2.index)
  let stop := (places.getLast?.map (·.stop)).getD 0
  return Text.before source membersStart ++ filled.flatten ++ Text.behind source stop

inductive Refusal where
  | malformed (reason : Malformed)
  | noSuchMember
  | notPlaced

def placed (nodes : List (Nat × Node)) : Except Refusal (List Tagged) :=
  nodes.mapM fun (i, n) =>
    match n.place? with
    | some p => .ok (i, p)
    | none => .error .notPlaced

/-- The text with its members in the order of some positions in the list of members. -/
def reorderAs (source : List Char) (membersStart : Int) (members : List Node)
    (positions : List Int) : Except Refusal (List Char) := do
  let tagged := members.mapIdx fun i n => (i, n)
  let movable := tagged.filter (·.2.mayMove)
  if movable.length < 2 then return source
  let ordered ← positions.mapM fun i =>
    (Text.elementAt? tagged i).elim (.error .noSuchMember) .ok
  (reorder source membersStart (← placed movable) (← placed ordered)).mapError .malformed

end Layout

end CallerFirst
