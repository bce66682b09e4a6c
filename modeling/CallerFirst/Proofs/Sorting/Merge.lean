import CallerFirst.Proofs.Sorting.Runs
import CallerFirst.Sorting.Merge
import Mathlib.Logic.Relation

/-!
# Merged runs fit

A merge moves elements from the two runs to what is merged, each time after a comparison with the
next element of the other run (`Merging.Step`). So the neighbours in the merged run fit if those in
the two runs do (`merge_isChain`). The comparison may be any: what is known of a leap is the two
neighbours that it ends between.
-/

namespace CallerFirst.Sorting

variable {α : Type} {lt : α → α → Bool} {before : α → α → Prop} {xs ys : List α}

-- ---------------------------------------------------------------------------
-- Leaps
-- ---------------------------------------------------------------------------

theorem leap_spec (goesOn : Nat → Bool) (limit fuel last distance : Nat) (hlt : last < distance)
    (hlimit : last < limit) (hfuel : limit ≤ distance + fuel)
    (hlast : last = 0 ∨ goesOn last = true) :
    ∃ l d, leap goesOn limit fuel last distance = (l, d) ∧ l < d ∧ d ≤ limit ∧
      (l = 0 ∨ goesOn l = true) ∧ (d = limit ∨ goesOn d = false) := by
  induction fuel generalizing last distance with
  | zero => exact ⟨last, min distance limit, rfl, by omega, by omega, hlast, .inl (by omega)⟩
  | succ fuel ih =>
    unfold leap
    cases hgoes : decide (distance < limit) && goesOn distance with
    | true =>
      obtain ⟨hd, hg⟩ : distance < limit ∧ goesOn distance = true := by simpa using hgoes
      exact ih distance (2 * distance + 1) (by omega) hd (by omega) (.inr hg)
    | false =>
      refine ⟨last, min distance limit, rfl, by omega, by omega, hlast, ?_⟩
      by_cases hd : distance < limit
      · rw [Nat.min_eq_left (Nat.le_of_lt hd)]
        exact .inr (by simpa [hd] using hgoes)
      · exact .inl (by omega)

/-- Wherever leaps begin, they end between neighbours the first of which belongs in front and the
second does not. -/
theorem gallop_cutsAt (inFront : α → Bool) {hint : Nat} (h : xs ≠ [] → hint < xs.length) :
    CutsAt inFront xs (gallop inFront xs hint) := by
  rcases eq_or_ne xs [] with rfl | hne
  · simp [CutsAt]
  have hhint := h hne
  unfold gallop
  cases hholds : xs[hint]?.any inFront with
  | true =>
    obtain ⟨l, d, heq, hld, hd, hl, hlast⟩ := leap_spec (fun d => xs[hint + d]?.any inFront)
      (xs.length - hint) xs.length 0 1 (by omega) (by omega) (by omega) (.inl rfl)
    simp only [hholds, ↓reduceIte, heq]
    refine bisect_cutsAt inFront (by omega) (by omega) (.inr ?_) (hlast.imp_left fun hd => by omega)
    rcases hl with rfl | hl
    · exact hholds
    · exact hl
  | false =>
    obtain ⟨l, d, heq, hld, hd, hl, hlast⟩ := leap_spec (fun d => !xs[hint - d]?.any inFront)
      (hint + 1) xs.length 0 1 (by omega) (by omega) (by omega) (.inl rfl)
    simp only [hholds, Bool.false_eq_true, ↓reduceIte, heq]
    refine bisect_cutsAt inFront (by omega) (by omega) ?_ (.inr ?_)
    · by_cases hfirst : d = hint + 1
      · exact .inl (by omega)
      · have hbehind : hint + 1 - d - 1 = hint - d := by omega
        rw [hbehind]
        exact .inr (by simpa using hlast.resolve_left hfirst)
    · rcases hl with rfl | hl
      · exact hholds
      · simpa using hl

theorem getLast?_drop_subset {n : Nat} {x : α} (h : x ∈ (xs.drop n).getLast?) : x ∈ xs.getLast? := by
  rw [List.getLast?_drop] at h
  split at h
  · simp at h
  · exact h

theorem CutsAt.of_reverse {inFront : α → Bool} {n : Nat} (h : CutsAt inFront xs.reverse n) :
    CutsAt (fun x => !inFront x) xs (xs.length - n) := by
  constructor
  · intro x hx
    have hx : x ∈ (xs.reverse.drop n).head? := by rwa [List.drop_reverse, List.head?_reverse]
    simpa using h.2 x hx
  · intro x hx
    have hx : x ∈ (xs.reverse.take n).getLast? := by rwa [List.take_reverse, List.getLast?_reverse]
    simpa using h.1 x hx

namespace Direction

/-- What is found ahead of an element goes by the same comparison as single elements. -/
structure Searches (d : Direction α) : Prop where
  kept : ∀ b xs, CutsAt (fun a => !d.otherFirst b a) xs (d.keptAhead b xs)
  other : ∀ a ys, CutsAt (fun b => d.otherFirst b a) ys (d.otherAhead a ys)

theorem searches_fromStart (lt : α → α → Bool) : (fromStart lt).Searches where
  kept _ _ := gallop_cutsAt _ List.length_pos_iff.mpr
  other _ _ := gallop_cutsAt _ List.length_pos_iff.mpr

theorem searches_fromEnd (lt : α → α → Bool) : (fromEnd lt).Searches := by
  have hlast (zs : List α) (hne : zs.reverse ≠ []) : zs.length - 1 < zs.reverse.length := by
    have := List.length_pos_iff.mpr hne
    simp only [List.length_reverse] at this ⊢
    omega
  refine ⟨fun a ys => (gallop_cutsAt _ (hlast ys)).of_reverse, fun b xs => ?_⟩
  simpa [fromEnd] using (gallop_cutsAt (fun a => !lt b a) (hlast xs)).of_reverse

end Direction

-- ---------------------------------------------------------------------------
-- Steps of a merge
-- ---------------------------------------------------------------------------

namespace Merging

variable {d : Direction α} {m m' : Merging α}

theorem isOpen_iff : m.isOpen = true ↔ 1 < m.kept.length ∧ m.other ≠ [] := by
  simp [isOpen]

theorem exists_of_isOpen (h : m.isOpen = true) :
    ∃ a a' as b bs, m.kept = a :: a' :: as ∧ m.other = b :: bs := by
  obtain ⟨hkept, hother⟩ := isOpen_iff.mp h
  obtain ⟨b, bs, hother⟩ := List.exists_cons_of_ne_nil hother
  match hm : m.kept, hkept with
  | a :: a' :: as, _ => exact ⟨a, a', as, b, bs, rfl, hother⟩

/-- All that a merge does: elements of one run are taken while the other has a next element, and the
last of them was compared with that one. -/
inductive Step (d : Direction α) : Merging α → Merging α → Prop
  | threshold (m : Merging α) (t : Nat) : Step d m { m with threshold := t }
  | kept {m : Merging α} {n : Nat} (hother : m.other = b :: bs)
      (h : ∀ a ∈ (m.kept.take n).getLast?, d.otherFirst b a = false) : Step d m (m.takeKept n)
  | other {m : Merging α} {n : Nat} (hkept : m.kept = a :: as)
      (h : ∀ b ∈ (m.other.take n).getLast?, d.otherFirst b a = true) : Step d m (m.takeOther n)

abbrev Steps (d : Direction α) : Merging α → Merging α → Prop :=
  Relation.ReflTransGen (Step d)

theorem Step.size_le (h : Step d m m') : m'.size ≤ m.size := by
  cases h with
  | threshold => exact Nat.le_refl _
  | kept => simp [size, takeKept]
  | other => simp [size, takeOther]

theorem Steps.size_le (h : Steps d m m') : m'.size ≤ m.size := by
  induction h with
  | refl => exact Nat.le_refl _
  | tail _ hstep ih => exact hstep.size_le.trans ih

end Merging

namespace Direction

open Merging (Step Steps isOpen_iff exists_of_isOpen)

variable {d : Direction α} {m : Merging α}

theorem oneByOne_steps (fuel i j : Nat) (m : Merging α) : Steps d m (d.oneByOne fuel i j m) := by
  induction fuel generalizing i j m with
  | zero => exact .refl
  | succ fuel ih =>
    unfold oneByOne
    split
    · rename_i a a' as b bs hkept hother
      split
      · rename_i hfirst
        have hstep : Step d m (m.takeOther 1) := .other hkept (by simpa [hother] using hfirst)
        split
        · exact .single hstep
        · exact .head hstep (ih _ _ _)
      · rename_i hfirst
        have hstep : Step d m (m.takeKept 1) := .kept hother (by simpa [hkept] using hfirst)
        split
        · exact .single hstep
        · exact .head hstep (ih _ _ _)
    · exact .refl

theorem leapInKept_steps (hd : d.Searches) (m : Merging α) : Steps d m (d.leapInKept m).2 := by
  unfold leapInKept
  split
  · exact .refl
  · rename_i b bs hother
    obtain ⟨hfront, hback⟩ := hd.kept b m.kept
    have hstep : Step d m (m.takeKept (d.keptAhead b m.kept)) :=
      .kept hother fun a ha => by simpa using hfront a ha
    dsimp only
    split
    · rename_i hopen
      obtain ⟨a, a', as, b', bs', hkept, hother'⟩ := exists_of_isOpen hopen
      obtain ⟨rfl, rfl⟩ : b = b' ∧ bs = bs' := by simpa [Merging.takeKept, hother] using hother'
      refine .head hstep (.single (.other hkept ?_))
      have hhead : a ∈ (m.kept.drop (d.keptAhead b m.kept)).head? := by
        simpa [Merging.takeKept] using congrArg List.head? hkept
      simpa [hother'] using hback a hhead
    · exact .single hstep

theorem leapInOther_steps (hd : d.Searches) (m : Merging α) : Steps d m (d.leapInOther m).2 := by
  unfold leapInOther
  split
  · exact .refl
  · rename_i a as hkept
    obtain ⟨hfront, hback⟩ := hd.other a m.other
    have hstep : Step d m (m.takeOther (d.otherAhead a m.other)) := .other hkept hfront
    dsimp only
    split
    · rename_i hopen
      obtain ⟨a', a'', as', b, bs, hkept', hother⟩ := exists_of_isOpen hopen
      obtain ⟨rfl, rfl⟩ : a = a' ∧ as = a'' :: as' := by
        simpa [Merging.takeOther, hkept] using hkept'
      refine .head hstep (.single (.kept hother ?_))
      have hhead : b ∈ (m.other.drop (d.otherAhead a m.other)).head? := by
        simpa [Merging.takeOther] using congrArg List.head? hother
      simpa [hkept'] using hback b hhead
    · exact .single hstep

theorem leaps_steps (hd : d.Searches) (m : Merging α) : Steps d m (d.leaps m).2 := by
  have htwo {first second : Merging α → Nat × Merging α} (hfirst : ∀ m, Steps d m (first m).2)
      (hsecond : ∀ m, Steps d m (second m).2) (paid : Bool) :
      Steps d m (if (first m).2.isOpen then (paid, (second (first m).2).2)
        else (false, (first m).2)).2 := by
    split
    · exact (hfirst m).trans (hsecond _)
    · exact hfirst m
  unfold leaps
  cases d.leapsInKept with
  | true => exact htwo (leapInKept_steps hd) (leapInOther_steps hd) _
  | false => exact htwo (leapInOther_steps hd) (leapInKept_steps hd) _

theorem leapOn_steps (hd : d.Searches) (fuel : Nat) (m : Merging α) : Steps d m (d.leapOn fuel m) := by
  induction fuel generalizing m with
  | zero => exact .refl
  | succ fuel ih =>
    unfold leapOn
    have hleaps := Relation.ReflTransGen.head (Step.threshold m (max 1 (m.threshold - 1)))
      (leaps_steps hd _)
    dsimp only
    split
    · exact hleaps
    · split
      · exact hleaps.trans (ih _)
      · exact hleaps.tail (.threshold _ _)

theorem mergeOn_steps (hd : d.Searches) (fuel : Nat) (m : Merging α) :
    Steps d m (d.mergeOn fuel m) := by
  induction fuel generalizing m with
  | zero => exact .refl
  | succ fuel ih =>
    unfold mergeOn
    have hone := oneByOne_steps (d := d) m.size 0 0 m
    dsimp only
    split
    · split
      · exact ((hone.tail (.threshold _ _)).trans (leapOn_steps hd _ _)).trans (ih _)
      · exact hone
    · exact .refl

theorem oneByOne_size_lt (h : m.isOpen = true) : (d.oneByOne m.size 0 0 m).size < m.size := by
  obtain ⟨a, a', as, b, bs, hkept, hother⟩ := exists_of_isOpen h
  obtain ⟨fuel, hfuel⟩ : ∃ fuel, m.size = fuel + 1 :=
    ⟨m.size - 1, by simp [Merging.size, hkept]; omega⟩
  have hone : (m.takeKept 1).size < m.size ∧ (m.takeOther 1).size < m.size := by
    simp [Merging.size, Merging.takeKept, Merging.takeOther, hkept, hother]
  have hle (i j : Nat) (m' : Merging α) := (oneByOne_steps (d := d) fuel i j m').size_le
  rw [hfuel] at hone ⊢
  unfold oneByOne
  simp only [hkept, hother]
  split
  · split
    · exact hone.2
    · exact (hle _ _ _).trans_lt hone.2
  · split
    · exact hone.1
    · exact (hle _ _ _).trans_lt hone.1

/-- A merge goes on until one run is used up, or has nothing left but its last element. -/
theorem isOpen_mergeOn (hd : d.Searches) (fuel : Nat) (m : Merging α) (hfuel : m.size ≤ fuel) :
    (d.mergeOn fuel m).isOpen = false := by
  induction fuel generalizing m with
  | zero =>
    rw [mergeOn, Bool.eq_false_iff, Ne, isOpen_iff]
    simp only [Merging.size] at hfuel
    omega
  | succ fuel ih =>
    unfold mergeOn
    cases hopen : m.isOpen with
    | false => simpa using hopen
    | true =>
      have hlt := oneByOne_size_lt (d := d) hopen
      dsimp only
      rw [if_pos rfl]
      split
      · refine ih _ ?_
        refine (leapOn_steps hd _ _).size_le.trans ?_
        exact Nat.le_of_lt_succ (hlt.trans_le hfuel)
      · simp_all

end Direction

-- ---------------------------------------------------------------------------
-- What a merge keeps
-- ---------------------------------------------------------------------------

namespace Merging

variable {d : Direction α} {m m' : Merging α} {r : α → α → Prop} {front rest : List α}

theorem Step.result_perm (h : Step d m m') : m'.result.Perm m.result := by
  cases h with
  | threshold => exact .refl _
  | @kept b bs m n =>
    simp only [result, takeKept, List.reverse_append, List.reverse_reverse, List.append_assoc]
    refine .append_left _ ?_
    have hmoved := List.perm_append_comm_assoc (m.kept.take n) m.other (m.kept.drop n)
    rwa [List.take_append_drop] at hmoved
  | other =>
    simp only [result, takeOther, List.reverse_append, List.reverse_reverse, List.append_assoc]
    rw [← List.append_assoc (List.take _ _), List.take_append_drop]

theorem Steps.result_perm (h : Steps d m m') : m'.result.Perm m.result := by
  induction h with
  | refl => exact .refl _
  | tail _ hstep ih => exact hstep.result_perm.trans ih

/-- What is merged may go on with either run, and both may go on with `rest`. -/
structure Fitting (d : Direction α) (r : α → α → Prop) (front rest : List α) (m : Merging α) :
    Prop where
  kept : (front ++ m.merged.reverse ++ m.kept ++ rest).IsChain r
  other : (front ++ m.merged.reverse ++ m.other ++ rest).IsChain r
  last : ∀ a ∈ m.kept.getLast?, ∀ b ∈ m.other.getLast?, r b a
  agrees : ∀ a ∈ m.kept, ∀ b ∈ m.other,
    (d.otherFirst b a = true → r b a) ∧ (d.otherFirst b a = false → r a b)

theorem isChain_take (hx : (front ++ xs ++ rest).IsChain r) (hy : (front ++ ys ++ rest).IsChain r)
    (hys : ys.head? = some b) (hr : ∀ a ∈ (xs.take n).getLast?, r a b) :
    (front ++ xs.take n ++ ys ++ rest).IsChain r := by
  cases htake : (xs.take n).getLast? with
  | none => rwa [List.getLast?_eq_none_iff.mp htake, List.append_nil]
  | some a =>
    have hfront : (front ++ xs.take n).IsChain r := by
      refine hx.prefix ⟨xs.drop n ++ rest, ?_⟩
      simp [← List.append_assoc (List.take _ _)]
    have hback : (ys ++ rest).IsChain r := by
      rw [List.append_assoc] at hy
      exact hy.right_of_append
    rw [List.append_assoc]
    refine hfront.append hback fun x hx y hy => ?_
    obtain rfl : a = x := by simpa [htake] using hx
    obtain rfl : b = y := by simpa [hys] using hy
    exact hr a htake

theorem Fitting.takeKept (h : Fitting d r front rest m) (hother : m.other = b :: bs) {n : Nat}
    (hfirst : ∀ a ∈ (m.kept.take n).getLast?, d.otherFirst b a = false) :
    Fitting d r front rest (m.takeKept n) where
  kept := by
    have hkept := h.kept
    rw [← List.take_append_drop n m.kept] at hkept
    simpa [Merging.takeKept] using hkept
  other := by
    have hchain := isChain_take (n := n) h.kept h.other (b := b) (by simp [hother]) fun a ha =>
      (h.agrees a (List.mem_of_mem_take (List.mem_of_mem_getLast? ha)) b (by simp [hother])).2
        (hfirst a ha)
    simpa [Merging.takeKept] using hchain
  last a ha := h.last a (getLast?_drop_subset ha)
  agrees a ha := h.agrees a (List.mem_of_mem_drop ha)

theorem Fitting.takeOther (h : Fitting d r front rest m) (hkept : m.kept = a :: as) {n : Nat}
    (hfirst : ∀ b ∈ (m.other.take n).getLast?, d.otherFirst b a = true) :
    Fitting d r front rest (m.takeOther n) where
  kept := by
    have hchain := isChain_take (n := n) h.other h.kept (b := a) (by simp [hkept]) fun b hb =>
      (h.agrees a (by simp [hkept]) b (List.mem_of_mem_take (List.mem_of_mem_getLast? hb))).1
        (hfirst b hb)
    simpa [Merging.takeOther] using hchain
  other := by
    have hother := h.other
    rw [← List.take_append_drop n m.other] at hother
    simpa [Merging.takeOther] using hother
  last a ha b hb := h.last a ha b (getLast?_drop_subset hb)
  agrees a ha b hb := h.agrees a ha b (List.mem_of_mem_drop hb)

theorem Step.fitting (h : Fitting d r front rest m) (hstep : Step d m m') :
    Fitting d r front rest m' := by
  cases hstep with
  | threshold => exact ⟨h.kept, h.other, h.last, h.agrees⟩
  | kept hother hfirst => exact h.takeKept hother hfirst
  | other hkept hfirst => exact h.takeOther hkept hfirst

theorem Steps.fitting (h : Fitting d r front rest m) (hsteps : Steps d m m') :
    Fitting d r front rest m' := by
  induction hsteps with
  | refl => exact h
  | tail _ hstep ih => exact hstep.fitting ih

theorem Fitting.result_isChain (h : Fitting d r front rest m) (hopen : m.isOpen = false) :
    (front ++ m.result ++ rest).IsChain r := by
  obtain ⟨hkept, hother, hlast, -⟩ := h
  have hclosed : m.kept.length ≤ 1 ∨ m.other = [] := by
    rw [Bool.eq_false_iff, Ne, isOpen_iff] at hopen
    grind
  cases hm : m.other.getLast? with
  | none =>
    rw [List.getLast?_eq_none_iff] at hm
    simpa [result, hm] using hkept
  | some b =>
    have hne : m.other ≠ [] := by
      rintro hnil
      simp [hnil] at hm
    match hk : m.kept, hclosed.resolve_right hne with
    | [], _ => simpa [result, hk] using hother
    | [a], _ =>
      -- the last element goes behind all of the other run
      rw [hk] at hkept
      have hfront : (front ++ m.merged.reverse ++ m.other).IsChain r := hother.left_of_append
      have hback : ([a] ++ rest).IsChain r := by
        rw [List.append_assoc] at hkept
        exact hkept.right_of_append
      have hchain := hfront.append hback fun x hx y hy => by
        obtain rfl : b = x := by simpa [hm] using hx
        obtain rfl : a = y := by simpa using hy
        exact hlast a (by simp [hk]) b hm
      simpa [result, hk] using hchain

end Merging

-- ---------------------------------------------------------------------------
-- Two runs
-- ---------------------------------------------------------------------------

namespace Direction

open Merging (Fitting)

variable {d : Direction α} {r : α → α → Prop} {front rest : List α}

theorem merge_perm (hd : d.Searches) (threshold : Nat) (xs ys : List α) :
    (d.merge threshold xs ys).result.Perm (ys ++ xs) := by
  refine (mergeOn_steps hd _ _).result_perm.trans (.of_eq ?_)
  cases ys <;> simp [Merging.takeOther, Merging.result]

theorem merge_isChain (hd : d.Searches) (threshold : Nat) {kept other : List α}
    (h : Fitting d r front rest { kept, other, threshold })
    (hfirst : ∀ a ∈ kept.head?, ∀ b ∈ other.head?, d.otherFirst b a = true) (hne : kept ≠ []) :
    (front ++ (d.merge threshold kept other).result ++ rest).IsChain r := by
  obtain ⟨a, as, rfl⟩ := List.exists_cons_of_ne_nil hne
  have htaken : Fitting d r front rest (Merging.takeOther { kept := a :: as, other, threshold } 1) := by
    refine h.takeOther rfl fun b hb => hfirst a rfl b ?_
    cases other with
    | nil => simp at hb
    | cons => simpa using hb
  exact ((mergeOn_steps hd _ _).fitting htaken).result_isChain (isOpen_mergeOn hd _ _ (Nat.le_refl _))

end Direction

/-- Parts of two runs that are merged: what stands in front of them and behind them is in place. -/
structure Overlap (lt : α → α → Bool) (front xs ys back : List α) : Prop where
  left : xs ≠ []
  right : ys ≠ []
  front : ∀ x ∈ front.getLast?, ∀ y ∈ ys.head?, lt y x = false
  first : ∀ x ∈ xs.head?, ∀ y ∈ ys.head?, lt y x = true
  last : ∀ x ∈ xs.getLast?, ∀ y ∈ ys.getLast?, lt y x = true
  back : ∀ x ∈ xs.getLast?, ∀ y ∈ back.head?, lt y x = false

theorem Overlap.of_cutsAt {x y : α} {i j : Nat} (hy : ys.head? = some y)
    (hx : (xs.drop i).getLast? = some x) (hi : CutsAt (fun x => !lt y x) xs i)
    (hj : CutsAt (fun y => lt y x) ys j) (hne : ys.take j ≠ []) :
    Overlap lt (xs.take i) (xs.drop i) (ys.take j) (ys.drop j) := by
  have hhead : (ys.take j).head? = some y := by
    rw [List.head?_take, if_neg (by rintro rfl; simp at hne), hy]
  refine ⟨fun hnil => ?_, hne, fun x' hx' y' hy' => ?_, fun x' hx' y' hy' => ?_,
    fun x' hx' y' hy' => ?_, fun x' hx' y' hy' => ?_⟩
  · simp [hnil] at hx
  · obtain rfl : y = y' := by simpa [hhead] using hy'
    simpa using hi.1 x' hx'
  · obtain rfl : y = y' := by simpa [hhead] using hy'
    simpa using hi.2 x' hx'
  · obtain rfl : x = x' := by simpa [hx] using hx'
    exact hj.1 y' hy'
  · obtain rfl : x = x' := by simpa [hx] using hx'
    exact hj.2 y' hy'

theorem merge_cases (lt : α → α → Bool) (threshold : Nat) (xs ys : List α) :
    ((merge lt threshold xs ys).1 = xs ++ ys ∧
      ∀ x ∈ xs.getLast?, ∀ y ∈ ys.head?, lt y x = false) ∨
    ∃ front left right back, xs = front ++ left ∧ ys = right ++ back ∧
      Overlap lt front left right back ∧
      ((merge lt threshold xs ys).1 =
          front ++ ((Direction.fromStart lt).merge threshold left right).result ++ back ∨
        (merge lt threshold xs ys).1 =
          front ++ ((Direction.fromEnd lt).merge threshold right.reverse left.reverse).result.reverse ++
            back) := by
  unfold merge
  split
  · rename_i hys
    exact .inl (by simp [List.head?_eq_none_iff.mp hys])
  · rename_i y hys
    have hcut : CutsAt (fun x => !lt y x) xs (gallop (fun x => !lt y x) xs 0) :=
      gallop_cutsAt _ List.length_pos_iff.mpr
    dsimp only
    generalize gallop (fun x => !lt y x) xs 0 = i at hcut ⊢
    split
    · rename_i hleft
      -- the other run begins behind all of this one
      have htake : xs.take i = xs := by
        have := List.take_append_drop i xs
        rwa [List.getLast?_eq_none_iff.mp hleft, List.append_nil] at this
      refine .inl ⟨by rw [htake], fun x hx y' hy' => ?_⟩
      obtain rfl : y = y' := by simpa [hys] using hy'
      simpa using hcut.1 x (by rwa [htake])
    · rename_i x hx
      have hhint : ys ≠ [] → ys.length - 1 < ys.length := fun hne => by
        have := List.length_pos_iff.mpr hne
        omega
      have hcut' := gallop_cutsAt (fun y => lt y x) hhint
      generalize gallop (fun y => lt y x) ys (ys.length - 1) = j at hcut' ⊢
      split
      · rename_i hempty
        -- this run ends in front of all of the other one
        have hempty : ys.take j = [] := by simpa using hempty
        have hdrop : ys.drop j = ys := by
          have := List.take_append_drop j ys
          rwa [hempty, List.nil_append] at this
        have hlast : xs.getLast? = some x := getLast?_drop_subset hx
        refine .inl ⟨by simp [hdrop], fun x' hx' y' hy' => ?_⟩
        obtain rfl : x = x' := by simpa [hlast] using hx'
        exact hcut'.2 y' (by rwa [hdrop])
      · rename_i hne
        refine .inr ⟨xs.take i, xs.drop i, ys.take j, ys.drop j, by simp, by simp,
          .of_cutsAt hys hx hcut hcut' (by simpa using hne), ?_⟩
        split
        · exact .inl rfl
        · exact .inr rfl

theorem merge_perm (lt : α → α → Bool) (threshold : Nat) (xs ys : List α) :
    (merge lt threshold xs ys).1.Perm (xs ++ ys) := by
  have hparts {front left right back merged : List α} (hmerged : merged.Perm (left ++ right)) :
      (front ++ merged ++ back).Perm (front ++ left ++ (right ++ back)) := by
    simpa using (hmerged.append_left front).append_right back
  obtain ⟨heq, -⟩ | ⟨front, left, right, back, rfl, rfl, -, heq | heq⟩ := merge_cases lt threshold xs ys
  · rw [heq]
  · rw [heq]
    refine hparts ((Direction.merge_perm (Direction.searches_fromStart lt) _ _ _).trans ?_)
    exact List.perm_append_comm
  · rw [heq]
    refine hparts ((List.reverse_perm _).trans ?_)
    refine (Direction.merge_perm (Direction.searches_fromEnd lt) _ _ _).trans ?_
    exact (List.reverse_perm _).append (List.reverse_perm _)

namespace Overlap

variable {front back : List α}

theorem merge_fromStart_isChain (h : Overlap lt front xs ys back) (threshold : Nat)
    (hb : ∀ x ∈ xs, ∀ y ∈ ys, before x y) (hx : (front ++ xs ++ back).IsChain (Fits lt before))
    (hy : (front ++ ys ++ back).IsChain (Fits lt before)) :
    (front ++ ((Direction.fromStart lt).merge threshold xs ys).result ++ back).IsChain
      (Fits lt before) := by
  refine Direction.merge_isChain (Direction.searches_fromStart lt) threshold ⟨?_, ?_, ?_, ?_⟩ h.first
    h.left
  · simpa using hx
  · simpa using hy
  · exact fun x hx y hy => .inl ⟨h.last x hx y hy,
      hb x (List.mem_of_mem_getLast? hx) y (List.mem_of_mem_getLast? hy)⟩
  · exact fun x hx y hy => ⟨fun hlt => .inl ⟨hlt, hb x hx y hy⟩, fun hle => .inr ⟨hle, hb x hx y hy⟩⟩

theorem merge_fromEnd_isChain (h : Overlap lt front xs ys back) (threshold : Nat)
    (hb : ∀ x ∈ xs, ∀ y ∈ ys, before x y) (hx : (front ++ xs ++ back).IsChain (Fits lt before))
    (hy : (front ++ ys ++ back).IsChain (Fits lt before)) :
    (front ++ ((Direction.fromEnd lt).merge threshold ys.reverse xs.reverse).result.reverse ++
      back).IsChain (Fits lt before) := by
  have hturned (zs : List α) (hz : (front ++ zs ++ back).IsChain (Fits lt before)) :
      (back.reverse ++ zs.reverse ++ front.reverse).IsChain fun a b => Fits lt before b a := by
    rw [← List.reverse_append, ← List.reverse_append, ← List.append_assoc]
    exact List.isChain_reverse.mpr hz
  have hmerged : (back.reverse ++
      ((Direction.fromEnd lt).merge threshold ys.reverse xs.reverse).result ++
        front.reverse).IsChain fun a b => Fits lt before b a := by
    refine Direction.merge_isChain (Direction.searches_fromEnd lt) threshold
      ⟨by simpa using hturned ys hy, by simpa using hturned xs hx, ?_, ?_⟩ ?_ (by simpa using h.right)
    · simp only [List.getLast?_reverse]
      exact fun y hy x hx => .inl ⟨h.first x hx y hy,
        hb x (List.mem_of_mem_head? hx) y (List.mem_of_mem_head? hy)⟩
    · simp only [List.mem_reverse]
      exact fun y hy x hx =>
        ⟨fun hlt => .inl ⟨hlt, hb x hx y hy⟩, fun hle => .inr ⟨hle, hb x hx y hy⟩⟩
    · simp only [List.head?_reverse]
      exact fun y hy x hx => h.last x hx y hy
  simpa using List.isChain_reverse.mpr hmerged

end Overlap

theorem merge_isChain (threshold : Nat) (hb : ∀ x ∈ xs, ∀ y ∈ ys, before x y)
    (hx : xs.IsChain (Fits lt before)) (hy : ys.IsChain (Fits lt before)) :
    (merge lt threshold xs ys).1.IsChain (Fits lt before) := by
  have hfits {x y : α} (hlt : lt y x = false) (hxs : x ∈ xs) (hys : y ∈ ys) : Fits lt before x y :=
    .inr ⟨hlt, hb x hxs y hys⟩
  obtain ⟨heq, hlast⟩ | ⟨front, left, right, back, rfl, rfl, h, heq⟩ := merge_cases lt threshold xs ys
  · rw [heq]
    exact hx.append hy fun x hxs y hys =>
      hfits (hlast x hxs y hys) (List.mem_of_mem_getLast? hxs) (List.mem_of_mem_head? hys)
  · have hb' : ∀ x ∈ left, ∀ y ∈ right, before x y := fun x hx y hy =>
      hb x (List.mem_append_right _ hx) y (List.mem_append_left _ hy)
    have hleft : (front ++ left ++ back).IsChain (Fits lt before) := by
      refine hx.append hy.right_of_append fun x hxs y hys => ?_
      have hxs' : x ∈ left.getLast? := by
        rwa [List.getLast?_append_of_ne_nil _ h.left] at hxs
      exact hfits (h.back x hxs' y hys) (List.mem_of_mem_getLast? hxs)
        (List.mem_append_right _ (List.mem_of_mem_head? hys))
    have hright : (front ++ right ++ back).IsChain (Fits lt before) := by
      rw [List.append_assoc]
      refine hx.left_of_append.append hy fun x hxs y hys => ?_
      have hys' : y ∈ right.head? := by
        rwa [List.head?_append_of_ne_nil _ h.right] at hys
      exact hfits (h.front x hxs y hys') (List.mem_append_left _ (List.mem_of_mem_getLast? hxs))
        (List.mem_of_mem_head? hys)
    rcases heq with heq | heq
    · rw [heq]
      exact h.merge_fromStart_isChain threshold hb' hleft hright
    · rw [heq]
      exact h.merge_fromEnd_isChain threshold hb' hleft hright

end CallerFirst.Sorting
