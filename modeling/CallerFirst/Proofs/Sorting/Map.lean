import CallerFirst.Sorting

/-!
# Sorting by what is compared

Sorting goes by what the comparison says of the elements alone (`sort_map`): each step on a list of
images does what it does on the list itself.
-/

namespace CallerFirst.Sorting

variable {α β : Type} (f : α → β) (lt : β → β → Bool)

-- ---------------------------------------------------------------------------
-- Runs
-- ---------------------------------------------------------------------------

theorem runFrom_map (goesOn : β → β → Bool) (a : α) (xs : List α) :
    runFrom goesOn (f a) (xs.map f) =
      (runFrom (fun x y => goesOn (f x) (f y)) a xs).map (List.map f) (List.map f) := by
  induction xs generalizing a with
  | nil => rfl
  | cons b xs ih =>
    simp only [List.map_cons, runFrom, ih]
    split <;> rfl

theorem leadingRun_map (xs : List α) :
    leadingRun lt (xs.map f) =
      (leadingRun (fun x y => lt (f x) (f y)) xs).map (List.map f) (List.map f) := by
  match xs with
  | [] => rfl
  | [a] => rfl
  | a :: b :: rest =>
    have hdown := runFrom_map f (fun x y => lt y x) a (b :: rest)
    have hup := runFrom_map f (fun x y => !lt y x) a (b :: rest)
    simp only [List.map_cons] at hdown hup
    simp only [List.map_cons, leadingRun]
    split
    · simp [hdown]
    · simp [hup]

theorem bisect_map (inFront : β → Bool) (xs : List α) (fuel low high : Nat) :
    bisect inFront (xs.map f) fuel low high = bisect (fun x => inFront (f x)) xs fuel low high := by
  induction fuel generalizing low high with
  | zero => rfl
  | succ fuel ih =>
    simp only [bisect, List.getElem?_map, ih]
    cases xs[(low + high) / 2]? <;> rfl

theorem insert_map (xs : List α) (a : α) :
    insert lt (xs.map f) (f a) = (insert (fun x y => lt (f x) (f y)) xs a).map f := by
  simp [insert, bisect_map, List.map_take, List.map_drop]

theorem foldl_insert_map (rest run : List α) :
    (rest.map f).foldl (insert lt) (run.map f) =
      (rest.foldl (insert fun x y => lt (f x) (f y)) run).map f := by
  induction rest generalizing run with
  | nil => rfl
  | cons a rest ih => simp only [List.map_cons, List.foldl_cons, insert_map, ih]

theorem nextRun_map (shortest : Nat) (xs : List α) :
    nextRun lt shortest (xs.map f) =
      (nextRun (fun x y => lt (f x) (f y)) shortest xs).map (List.map f) (List.map f) := by
  simp only [nextRun, leadingRun_map, Prod.map_fst, Prod.map_snd, List.length_map, ← List.map_take,
    ← List.map_drop, foldl_insert_map]
  rfl

-- ---------------------------------------------------------------------------
-- Merges
-- ---------------------------------------------------------------------------

theorem gallop_map (inFront : β → Bool) (xs : List α) (hint : Nat) :
    gallop inFront (xs.map f) hint = gallop (fun x => inFront (f x)) xs hint := by
  have hholds (i : Nat) : (xs.map f)[i]?.any inFront = xs[i]?.any fun x => inFront (f x) := by
    rw [List.getElem?_map]
    cases xs[i]? <;> rfl
  simp only [gallop, hholds, List.length_map, bisect_map]

def Merging.map (m : Merging α) : Merging β where
  merged := m.merged.map f
  kept := m.kept.map f
  other := m.other.map f
  threshold := m.threshold

namespace Merging

variable (m : Merging α) (n : Nat)

theorem isOpen_map : (m.map f).isOpen = m.isOpen := by
  simp [isOpen, map]

theorem size_map : (m.map f).size = m.size := by
  simp [size, map]

theorem threshold_map : (m.map f).threshold = m.threshold :=
  rfl

theorem with_threshold_map :
    { m.map f with threshold := n } = ({ m with threshold := n } : Merging α).map f :=
  rfl

theorem takeKept_map : (m.map f).takeKept n = (m.takeKept n).map f := by
  simp [takeKept, map, List.map_take, List.map_drop]

theorem takeOther_map : (m.map f).takeOther n = (m.takeOther n).map f := by
  simp [takeOther, map, List.map_take, List.map_drop]

theorem result_map : (m.map f).result = m.result.map f := by
  simp [result, map]

end Merging

namespace Direction

/-- The same direction for elements that stand for others. -/
structure Along (f : α → β) (d : Direction β) (d' : Direction α) : Prop where
  otherFirst : ∀ b a, d.otherFirst (f b) (f a) = d'.otherFirst b a
  keptAhead : ∀ b xs, d.keptAhead (f b) (xs.map f) = d'.keptAhead b xs
  otherAhead : ∀ a ys, d.otherAhead (f a) (ys.map f) = d'.otherAhead a ys
  leapsInKept : d.leapsInKept = d'.leapsInKept

theorem along_fromStart : Along f (fromStart lt) (fromStart fun x y => lt (f x) (f y)) :=
  ⟨fun _ _ => rfl, fun _ _ => gallop_map f _ _ _, fun _ _ => gallop_map f _ _ _, rfl⟩

theorem along_fromEnd : Along f (fromEnd lt) (fromEnd fun x y => lt (f x) (f y)) := by
  refine ⟨fun _ _ => rfl, fun b xs => ?_, fun a ys => ?_, rfl⟩ <;>
    simp only [fromEnd, ← List.map_reverse, gallop_map, List.length_map]

variable {f} {d : Direction β} {d' : Direction α} (h : Along f d d')
include h

theorem oneByOne_map (fuel i j : Nat) (m : Merging α) :
    d.oneByOne fuel i j (m.map f) = (d'.oneByOne fuel i j m).map f := by
  induction fuel generalizing i j m with
  | zero => rfl
  | succ fuel ih =>
    simp only [oneByOne, Merging.takeKept_map, Merging.takeOther_map, ih]
    match hk : m.kept, ho : m.other with
    | [], _ => simp [Merging.map, hk]
    | [a], _ => simp [Merging.map, hk]
    | a :: a' :: as, [] => simp [Merging.map, hk, ho]
    | a :: a' :: as, b :: bs =>
      simp only [Merging.map, hk, ho, List.map_cons, h.otherFirst]
      split <;> split <;> rfl

theorem leapInKept_map (m : Merging α) :
    d.leapInKept (m.map f) = (d'.leapInKept m).map id (Merging.map f) := by
  match ho : m.other with
  | [] => simp [leapInKept, Merging.map, ho]
  | b :: bs =>
    have hn : d.keptAhead (f b) (m.map f).kept = d'.keptAhead b m.kept := h.keptAhead b m.kept
    have hother : (m.map f).other = f b :: bs.map f := by simp [Merging.map, ho]
    simp only [leapInKept, hother, ho, hn, Merging.takeKept_map, Merging.isOpen_map,
      Merging.takeOther_map, Prod.map_apply, id]
    split <;> rfl

theorem leapInOther_map (m : Merging α) :
    d.leapInOther (m.map f) = (d'.leapInOther m).map id (Merging.map f) := by
  match hk : m.kept with
  | [] => simp [leapInOther, Merging.map, hk]
  | a :: as =>
    have hn : d.otherAhead (f a) (m.map f).other = d'.otherAhead a m.other := h.otherAhead a m.other
    have hkept : (m.map f).kept = f a :: as.map f := by simp [Merging.map, hk]
    simp only [leapInOther, hkept, hk, hn, Merging.takeKept_map, Merging.isOpen_map,
      Merging.takeOther_map, Prod.map_apply, id]
    split <;> rfl

theorem leaps_map (m : Merging α) : d.leaps (m.map f) = (d'.leaps m).map id (Merging.map f) := by
  simp only [leaps, h.leapsInKept]
  cases d'.leapsInKept <;>
    simp only [Bool.false_eq_true, ↓reduceIte, leapInKept_map h, leapInOther_map h, Prod.map_fst,
      Prod.map_snd, Merging.isOpen_map, id] <;>
    split <;> rfl

theorem leapOn_map (fuel : Nat) (m : Merging α) :
    d.leapOn fuel (m.map f) = (d'.leapOn fuel m).map f := by
  induction fuel generalizing m with
  | zero => rfl
  | succ fuel ih =>
    simp only [leapOn, Merging.threshold_map, Merging.with_threshold_map, leaps_map h, Prod.map_fst,
      Prod.map_snd, Merging.isOpen_map, ih, id]
    split
    · rfl
    · split <;> rfl

theorem mergeOn_map (fuel : Nat) (m : Merging α) :
    d.mergeOn fuel (m.map f) = (d'.mergeOn fuel m).map f := by
  induction fuel generalizing m with
  | zero => rfl
  | succ fuel ih =>
    simp only [mergeOn, Merging.isOpen_map, Merging.size_map, oneByOne_map h, Merging.threshold_map,
      Merging.with_threshold_map, leapOn_map h, ih]
    split
    · split <;> rfl
    · rfl

theorem merge_map (threshold : Nat) (kept other : List α) :
    d.merge threshold (kept.map f) (other.map f) = (d'.merge threshold kept other).map f := by
  have hstart : ({ kept := kept.map f, other := other.map f, threshold } : Merging β) =
      Merging.map f { kept, other, threshold } := rfl
  simp only [merge, hstart, Merging.takeOther_map, Merging.size_map, mergeOn_map h]

end Direction

theorem merge_map (threshold : Nat) (xs ys : List α) :
    merge lt threshold (xs.map f) (ys.map f) =
      (merge (fun x y => lt (f x) (f y)) threshold xs ys).map (List.map f) id := by
  simp only [merge, List.head?_map]
  cases ys.head? with
  | none => rfl
  | some y =>
    simp only [Option.map_some, gallop_map, ← List.map_take, ← List.map_drop, List.getLast?_map]
    cases (xs.drop (gallop (fun x => !lt (f y) (f x)) xs 0)).getLast? with
    | none => simp
    | some x =>
      simp only [Option.map_some, List.length_map, List.isEmpty_map, ← List.map_reverse, Direction.merge_map (Direction.along_fromStart f lt),
        Direction.merge_map (Direction.along_fromEnd f lt), Merging.result_map]
      split
      · simp
      · split <;> simp [Merging.map]

-- ---------------------------------------------------------------------------
-- Stacks
-- ---------------------------------------------------------------------------

namespace Stack

def map (s : Stack α) : Stack β where
  below := s.below.map (Prod.map (List.map f) id)
  top := s.top.map f
  threshold := s.threshold

theorem collapse_map (power : Nat) (below : List (List α × Nat)) (top : List α) (threshold : Nat) :
    collapse lt power (below.map (Prod.map (List.map f) id)) (top.map f) threshold =
      (collapse (fun x y => lt (f x) (f y)) power below top threshold).map f := by
  induction below generalizing top threshold with
  | nil => rfl
  | cons run below ih =>
    simp only [List.map_cons, collapse, merge_map, Prod.map_fst, Prod.map_snd, id, ih]
    split <;> rfl

theorem power_map (total : Nat) (s : Stack α) (run : List α) :
    (s.map f).power total (run.map f) = s.power total run := by
  simp [power, start, map, Function.comp_def]

theorem push_map (total : Nat) (s : Stack α) (run : List α) :
    (s.map f).push lt total (run.map f) =
      (s.push (fun x y => lt (f x) (f y)) total run).map f := by
  have hcollapse := collapse_map f lt (s.power total run) s.below s.top s.threshold
  have hmap : collapse lt (s.power total run) (s.map f).below (s.map f).top (s.map f).threshold = _ :=
    hcollapse
  simp only [push, power_map, hmap]
  rfl

theorem mergeAll_map (below : List (List α × Nat)) (run top : List α) (threshold : Nat) :
    mergeAll lt (below.map (Prod.map (List.map f) id)) (run.map f) (top.map f) threshold =
      (mergeAll (fun x y => lt (f x) (f y)) below run top threshold).map f := by
  induction below generalizing run top threshold with
  | nil => simp [mergeAll, merge_map]
  | cons first below ih =>
    simp only [List.map_cons, mergeAll, merge_map, Prod.map_fst, Prod.map_snd,
      List.length_map, id, ih]
    split <;> rfl

theorem result_map (s : Stack α) :
    (s.map f).result lt = (s.result fun x y => lt (f x) (f y)).map f := by
  match hs : s.below with
  | [] => simp [result, map, hs]
  | (run, p) :: below =>
    simp only [result, map, hs, List.map_cons, Prod.map_apply]
    exact mergeAll_map f lt below run s.top s.threshold

end Stack

theorem sortRuns_map (shortest total fuel : Nat) (s : Stack α) (rest : List α) :
    sortRuns lt shortest total fuel (s.map f) (rest.map f) =
      (sortRuns (fun x y => lt (f x) (f y)) shortest total fuel s rest).map f := by
  induction fuel generalizing s rest with
  | zero => cases rest <;> simp [sortRuns, Stack.result_map]
  | succ fuel ih =>
    cases rest with
    | nil => simp [sortRuns, Stack.result_map]
    | cons a rest =>
      have hnext := nextRun_map f lt shortest (a :: rest)
      simp only [List.map_cons] at hnext
      simp only [List.map_cons, sortRuns, hnext, Prod.map_fst, Prod.map_snd, Stack.push_map, ih]

theorem sort_map (xs : List α) :
    sort lt (xs.map f) = (sort (fun x y => lt (f x) (f y)) xs).map f := by
  simp only [sort, List.length_map, nextRun_map, Prod.map_fst, Prod.map_snd]
  exact sortRuns_map f lt _ _ _ { top := (nextRun _ _ xs).1 } _

end CallerFirst.Sorting
