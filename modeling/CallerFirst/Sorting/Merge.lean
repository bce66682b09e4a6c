import CallerFirst.Sorting.Runs

/-!
# Merging two runs

Two runs behind each other become one. What is in place at the outer ends stays there; the rest is
merged from the end at which the shorter run stands. Elements are first taken one by one. When one run
has given many in a row, the number that it gives next is searched for in leaps, as long as that pays.
-/

namespace CallerFirst.Sorting

variable {α : Type}

/-- Doubles the distance until it reaches the limit or `goesOn` fails: the last distance where it held,
and the one behind. -/
def leap (goesOn : Nat → Bool) (limit : Nat) : (fuel last distance : Nat) → Nat × Nat
  | 0, last, distance => (last, min distance limit)
  | fuel + 1, last, distance =>
    if distance < limit && goesOn distance then leap goesOn limit fuel distance (2 * distance + 1)
    else (last, min distance limit)

/-- Number of elements in front of a place, found in leaps from `hint` on and then by halving. -/
def gallop (inFront : α → Bool) (xs : List α) (hint : Nat) : Nat :=
  let holds (i : Nat) := xs[i]?.any inFront
  let (low, high) :=
    if holds hint then
      let (last, distance) := leap (fun d => holds (hint + d)) (xs.length - hint) xs.length 0 1
      (hint + last + 1, hint + distance)
    else
      let (last, distance) := leap (fun d => !holds (hint - d)) (hint + 1) xs.length 0 1
      (hint + 1 - distance, hint - last)
  bisect inFront xs (xs.length + 1) low high

/-- Two runs that are merged from one end, given from that end on. The last element of `kept` goes
behind all of `other`. -/
structure Merging (α : Type) where
  /-- What was merged, the latest first. -/
  merged : List α := []
  kept : List α
  other : List α
  /-- How many elements one run gives in a row before leaps are tried. -/
  threshold : Nat

namespace Merging

def isOpen (m : Merging α) : Bool :=
  1 < m.kept.length && !m.other.isEmpty

def size (m : Merging α) : Nat :=
  m.kept.length + m.other.length

def takeKept (m : Merging α) (n : Nat) : Merging α :=
  { m with merged := (m.kept.take n).reverse ++ m.merged, kept := m.kept.drop n }

def takeOther (m : Merging α) (n : Nat) : Merging α :=
  { m with merged := (m.other.take n).reverse ++ m.merged, other := m.other.drop n }

def result (m : Merging α) : List α :=
  m.merged.reverse ++ m.other ++ m.kept

end Merging

/-- What depends on the end from which two runs are merged. -/
structure Direction (α : Type) where
  /-- An element of `other` goes in front of one of `kept`. -/
  otherFirst : α → α → Bool
  /-- How many of `kept` go in front of an element of `other`. -/
  keptAhead : α → List α → Nat
  otherAhead : α → List α → Nat
  /-- Leaps are tried in `kept` first. -/
  leapsInKept : Bool

namespace Direction

def fromStart (lt : α → α → Bool) : Direction α where
  otherFirst b a := lt b a
  keptAhead b xs := gallop (fun a => !lt b a) xs 0
  otherAhead a ys := gallop (fun b => lt b a) ys 0
  leapsInKept := true

/-- The first run is `other` here, and both are turned around. -/
def fromEnd (lt : α → α → Bool) : Direction α where
  otherFirst a b := lt b a
  keptAhead a ys := ys.length - gallop (fun b => lt b a) ys.reverse (ys.length - 1)
  otherAhead b xs := xs.length - gallop (fun a => !lt b a) xs.reverse (xs.length - 1)
  leapsInKept := false

variable (d : Direction α)

/-- Takes elements one by one until one run has given `threshold` in a row. -/
def oneByOne : (fuel keptCount otherCount : Nat) → Merging α → Merging α
  | 0, _, _, m => m
  | fuel + 1, i, j, m =>
    match m.kept, m.other with
    | a :: _ :: _, b :: _ =>
      if d.otherFirst b a then
        if m.threshold ≤ j + 1 then m.takeOther 1 else oneByOne fuel 0 (j + 1) (m.takeOther 1)
      else if m.threshold ≤ i + 1 then m.takeKept 1
      else oneByOne fuel (i + 1) 0 (m.takeKept 1)
    | _, _ => m

/-- Takes what goes in front of the next of `other`, and then that one. -/
def leapInKept (m : Merging α) : Nat × Merging α :=
  match m.other with
  | [] => (0, m)
  | b :: _ =>
    let n := d.keptAhead b m.kept
    let m := m.takeKept n
    (n, if m.isOpen then m.takeOther 1 else m)

def leapInOther (m : Merging α) : Nat × Merging α :=
  match m.kept with
  | [] => (0, m)
  | a :: _ =>
    let n := d.otherAhead a m.other
    let m := m.takeOther n
    (n, if m.isOpen then m.takeKept 1 else m)

def worthwhile : Nat := 7

/-- A leap in each run; whether one of them has paid. -/
def leaps (m : Merging α) : Bool × Merging α :=
  let (i, m) := if d.leapsInKept then d.leapInKept m else d.leapInOther m
  if m.isOpen then
    let (j, m) := if d.leapsInKept then d.leapInOther m else d.leapInKept m
    (worthwhile ≤ i || worthwhile ≤ j, m)
  else (false, m)

/-- Leaps on as long as it pays, which makes leaps more likely later on; giving up makes them less. -/
def leapOn : (fuel : Nat) → Merging α → Merging α
  | 0, m => m
  | fuel + 1, m =>
    let (paid, m) := d.leaps { m with threshold := max 1 (m.threshold - 1) }
    if !m.isOpen then m
    else if paid then leapOn fuel m
    else { m with threshold := m.threshold + 1 }

def mergeOn : (fuel : Nat) → Merging α → Merging α
  | 0, m => m
  | fuel + 1, m =>
    if m.isOpen then
      let m := d.oneByOne m.size 0 0 m
      if m.isOpen then mergeOn fuel (d.leapOn m.size { m with threshold := m.threshold + 1 })
      else m
    else m

/-- Merges two runs the first element of which is the first of `other`. -/
def merge (threshold : Nat) (kept other : List α) : Merging α :=
  let m := ({ kept, other, threshold } : Merging α).takeOther 1
  d.mergeOn m.size m

end Direction

variable (lt : α → α → Bool)

def merge (threshold : Nat) (xs ys : List α) : List α × Nat :=
  match ys.head? with
  | none => (xs, threshold)
  | some y =>
    let i := gallop (fun x => !lt y x) xs 0
    let (front, xs) := (xs.take i, xs.drop i)
    match xs.getLast? with
    | none => (front ++ ys, threshold)
    | some x =>
      let j := gallop (fun y => lt y x) ys (ys.length - 1)
      let (ys, back) := (ys.take j, ys.drop j)
      if ys.isEmpty then (front ++ xs ++ back, threshold)
      else if xs.length ≤ ys.length then
        let m := (Direction.fromStart lt).merge threshold xs ys
        (front ++ m.result ++ back, m.threshold)
      else
        let m := (Direction.fromEnd lt).merge threshold ys.reverse xs.reverse
        (front ++ m.result.reverse ++ back, m.threshold)

end CallerFirst.Sorting
