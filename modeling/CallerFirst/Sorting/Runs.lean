/-!
# Runs

The longest ordered run at the front of a list, turned around if it goes strictly down, and the
elements that are put into it by halving if it is short.
-/

namespace CallerFirst.Sorting

variable {α : Type} (lt : α → α → Bool)

/-- Cuts a list behind the elements that go on from `previous` as `goesOn` says. -/
def runFrom (goesOn : α → α → Bool) (previous : α) : List α → List α × List α
  | [] => ([], [])
  | a :: rest =>
    if goesOn previous a then
      let (run, rest) := runFrom goesOn a rest
      (a :: run, rest)
    else ([], a :: rest)

/-- The run at the front in ascending order, and the elements behind it. -/
def leadingRun : List α → List α × List α
  | a :: b :: rest =>
    if lt b a then
      let (run, rest) := runFrom (fun x y => lt y x) a (b :: rest)
      ((a :: run).reverse, rest)
    else
      let (run, rest) := runFrom (fun x y => !lt y x) a (b :: rest)
      (a :: run, rest)
  | short => (short, [])

/-- Number of elements in front of a place, found by halving between `low` and `high`. -/
def bisect (inFront : α → Bool) (xs : List α) : (fuel low high : Nat) → Nat
  | 0, low, _ => low
  | fuel + 1, low, high =>
    if low < high then
      let middle := (low + high) / 2
      match xs[middle]? with
      | some x =>
        if inFront x then bisect inFront xs fuel (middle + 1) high
        else bisect inFront xs fuel low middle
      | none => low
    else low

def insert (xs : List α) (a : α) : List α :=
  let n := bisect (fun x => !lt a x) xs (xs.length + 1) 0 xs.length
  xs.take n ++ a :: xs.drop n

/-- The run at the front, made as long as `shortest` if there are elements for it. -/
def nextRun (shortest : Nat) (xs : List α) : List α × List α :=
  let (run, rest) := leadingRun lt xs
  let missing := shortest - run.length
  ((rest.take missing).foldl (insert lt) run, rest.drop missing)

end CallerFirst.Sorting
