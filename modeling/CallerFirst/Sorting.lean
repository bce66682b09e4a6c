import CallerFirst.Sorting.Merge

/-!
# Sorting by a comparison that need not be consistent

A list is cut into runs, which are merged. For a consistent order the result is the stable sort. For
any other the result depends on which elements are compared, so the steps themselves are the rule.
Less than 64 elements are one run.
-/

namespace CallerFirst.Sorting

variable {α : Type} (lt : α → α → Bool)

/-- The length that runs are filled up to: the list has about as many runs as a power of two. -/
def shortestRun : (fuel length : Nat) → (odd : Nat := 0) → Nat
  | 0, n, odd => n + odd
  | fuel + 1, n, odd => if n < 64 then n + odd else shortestRun fuel (n / 2) (max odd (n % 2))

/-- The first binary digit after the point in which two fractions of `total` differ. -/
def powerOf (total : Nat) : (fuel a b : Nat) → Nat
  | 0, _, _ => 0
  | fuel + 1, a, b =>
    if total ≤ a then powerOf total fuel (2 * (a - total)) (2 * (b - total)) + 1
    else if total ≤ b then 1
    else powerOf total fuel (2 * a) (2 * b) + 1

/-- Runs behind each other. All but the last have the power of the boundary behind them. -/
structure Stack (α : Type) where
  /-- The later run first. -/
  below : List (List α × Nat) := []
  top : List α
  threshold : Nat := Direction.worthwhile

namespace Stack

def start (s : Stack α) : Nat :=
  (s.below.map (·.1.length)).foldr (· + ·) 0

def power (total : Nat) (s : Stack α) (run : List α) : Nat :=
  let a := 2 * s.start + s.top.length
  powerOf total total a (a + s.top.length + run.length)

/-- Merges the last runs that have a boundary of a higher power in front. -/
def collapse (power : Nat) : (below : List (List α × Nat)) → (top : List α) → (threshold : Nat) →
    Stack α
  | [], top, threshold => { top, threshold }
  | (run, p) :: below, top, threshold =>
    if power < p then
      let (top, threshold) := merge lt threshold run top
      collapse power below top threshold
    else { below := (run, p) :: below, top, threshold }

def push (total : Nat) (s : Stack α) (run : List α) : Stack α :=
  let power := s.power total run
  let s := collapse lt power s.below s.top s.threshold
  { s with below := (s.top, power) :: s.below, top := run }

/-- Merges all runs: the last two, or those in front of the last one if the first of them is shorter
than it. -/
def mergeAll : (below : List (List α × Nat)) → (run top : List α) → (threshold : Nat) → List α
  | [], run, top, threshold => (merge lt threshold run top).1
  | (first, _) :: below, run, top, threshold =>
    if first.length < top.length then
      let (run, threshold) := merge lt threshold first run
      mergeAll below run top threshold
    else
      let (top, threshold) := merge lt threshold run top
      mergeAll below first top threshold

def result (s : Stack α) : List α :=
  match s.below with
  | [] => s.top
  | (run, _) :: below => mergeAll lt below run s.top s.threshold

end Stack

def sortRuns (shortest total : Nat) : (fuel : Nat) → Stack α → List α → List α
  | _, s, [] => s.result lt
  | 0, s, rest => s.result lt ++ rest
  | fuel + 1, s, rest =>
    let (run, rest) := nextRun lt shortest rest
    sortRuns shortest total fuel (s.push lt total run) rest

def sort (xs : List α) : List α :=
  let shortest := shortestRun xs.length xs.length
  let (run, rest) := nextRun lt shortest xs
  sortRuns lt shortest xs.length rest.length { top := run } rest

def sortBy (compare : α → α → Int) (xs : List α) : List α :=
  sort (fun a b => compare a b < 0) xs

end CallerFirst.Sorting
