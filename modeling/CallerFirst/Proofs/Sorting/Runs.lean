import CallerFirst.Sorting.Runs
import Mathlib.Data.List.Chain
import Mathlib.Tactic.Tauto

/-!
# Runs of elements that fit

Whatever the comparison says, the neighbours in a run agree with it (`Fits`): the one that stands in
front does so because they were compared, or because they came in this order and the comparison has
nothing against it. `insert_spec` says where an element is put.
-/

namespace CallerFirst.Sorting

variable {α : Type} {lt : α → α → Bool} {before : α → α → Prop} {xs : List α}

/-- `a` may stand right in front of `b`; `before` is the order in which elements were given. -/
def Fits (lt : α → α → Bool) (before : α → α → Prop) (a b : α) : Prop :=
  lt a b = true ∧ before b a ∨ lt b a = false ∧ before a b

-- ---------------------------------------------------------------------------
-- The run at the front
-- ---------------------------------------------------------------------------

theorem runFrom_append (goesOn : α → α → Bool) (a : α) (xs : List α) :
    (runFrom goesOn a xs).1 ++ (runFrom goesOn a xs).2 = xs := by
  induction xs generalizing a with
  | nil => rfl
  | cons b rest ih =>
    unfold runFrom
    split
    · simp [ih]
    · rfl

theorem runFrom_isChain (goesOn : α → α → Bool) (a : α) (xs : List α)
    (hb : (a :: xs).Pairwise before) :
    (a :: (runFrom goesOn a xs).1).IsChain fun x y => goesOn x y = true ∧ before x y := by
  induction xs generalizing a with
  | nil => exact List.isChain_singleton a
  | cons b rest ih =>
    obtain ⟨ha, hb⟩ := List.pairwise_cons.mp hb
    unfold runFrom
    split
    · rename_i hgoes
      exact .cons_cons ⟨hgoes, ha b List.mem_cons_self⟩ (ih b hb)
    · exact List.isChain_singleton a

theorem leadingRun_perm (lt : α → α → Bool) (xs : List α) :
    ((leadingRun lt xs).1 ++ (leadingRun lt xs).2).Perm xs := by
  unfold leadingRun
  split
  · rename_i a b rest
    split
    · refine ((List.reverse_perm _).append_right _).trans ?_
      simp [runFrom_append]
    · simp [runFrom_append]
  · simp

theorem leadingRun_cases (lt : α → α → Bool) (hb : xs.Pairwise before) :
    ((leadingRun lt xs).1.IsChain fun x y => lt x y = true ∧ before y x) ∨
      (leadingRun lt xs).1.IsChain fun x y => lt y x = false ∧ before x y := by
  unfold leadingRun
  split
  · rename_i a b rest
    split
    · exact .inl (List.isChain_reverse.mpr (runFrom_isChain _ a _ hb))
    · exact .inr ((runFrom_isChain _ a _ hb).imp fun x y hxy => ⟨by simpa using hxy.1, hxy.2⟩)
  · rename_i hshort
    match xs, hshort with
    | [], _ => exact .inr .nil
    | [a], _ => exact .inr (.singleton a)
    | a :: b :: rest, hshort => exact absurd rfl (hshort a b rest)

theorem leadingRun_isChain (lt : α → α → Bool) (hb : xs.Pairwise before) :
    (leadingRun lt xs).1.IsChain (Fits lt before) := by
  rcases leadingRun_cases lt hb with h | h
  · exact h.imp fun _ _ => .inl
  · exact h.imp fun _ _ => .inr

theorem leadingRun_before (lt : α → α → Bool) (hb : xs.Pairwise before) :
    (∀ x ∈ (leadingRun lt xs).1, ∀ y ∈ (leadingRun lt xs).2, before x y) ∧
      (leadingRun lt xs).2.Pairwise before := by
  unfold leadingRun
  split
  · rename_i a b rest
    split
    · have happ := runFrom_append (fun x y => lt y x) a (b :: rest)
      rw [← happ] at hb
      obtain ⟨-, hrest, hcross⟩ := List.pairwise_append.mp (List.cons_append ▸ hb)
      exact ⟨fun x hx y hy => hcross x (List.mem_reverse.mp hx) y hy, hrest⟩
    · have happ := runFrom_append (fun x y => !lt y x) a (b :: rest)
      rw [← happ] at hb
      obtain ⟨-, hrest, hcross⟩ := List.pairwise_append.mp (List.cons_append ▸ hb)
      exact ⟨hcross, hrest⟩
  · simp

theorem leadingRun_ne_nil (lt : α → α → Bool) (hne : xs ≠ []) : (leadingRun lt xs).1 ≠ [] := by
  unfold leadingRun
  split
  · split <;> simp
  · exact hne

-- ---------------------------------------------------------------------------
-- Places
-- ---------------------------------------------------------------------------

/-- Halving stops between two neighbours the first of which belongs in front and the second does not.
This needs no property of `inFront`. -/
theorem bisect_spec (inFront : α → Bool) (xs : List α) (fuel low high : Nat)
    (hfuel : high < fuel + low) (hlow : low ≤ high) (hhigh : high ≤ xs.length) :
    ∃ n, bisect inFront xs fuel low high = n ∧ low ≤ n ∧ n ≤ high ∧
      (n ≠ low → ∀ x ∈ xs[n - 1]?, inFront x = true) ∧
      (n ≠ high → ∀ x ∈ xs[n]?, inFront x = false) := by
  induction fuel generalizing low high with
  | zero => omega
  | succ fuel ih =>
    unfold bisect
    by_cases h : low < high
    · have hm : (low + high) / 2 < xs.length := by omega
      simp only [h, ↓reduceIte, List.getElem?_eq_getElem hm]
      cases hx : inFront xs[(low + high) / 2] with
      | false =>
        simp only [Bool.false_eq_true, ↓reduceIte]
        obtain ⟨n, hn, h1, h2, h3, h4⟩ :=
          ih low ((low + high) / 2) (by omega) (by omega) (by omega)
        refine ⟨n, hn, h1, by omega, h3, fun _ => ?_⟩
        by_cases he : n = (low + high) / 2
        · simpa [he, List.getElem?_eq_getElem hm] using hx
        · exact h4 he
      | true =>
        simp only [↓reduceIte]
        obtain ⟨n, hn, h1, h2, h3, h4⟩ :=
          ih ((low + high) / 2 + 1) high (by omega) (by omega) (by omega)
        refine ⟨n, hn, by omega, h2, fun _ => ?_, h4⟩
        by_cases he : n = (low + high) / 2 + 1
        · simpa [he, List.getElem?_eq_getElem hm] using hx
        · exact h3 he
    · simp only [h, ↓reduceIte]
      exact ⟨low, rfl, Nat.le_refl _, hlow, fun hne => absurd rfl hne, fun hne => absurd (by omega) hne⟩

theorem mem_getLast?_take {n : Nat} {x : α} (h : x ∈ (xs.take n).getLast?) (hn : n ≤ xs.length) :
    n ≠ 0 ∧ x ∈ xs[n - 1]? := by
  have hne : n ≠ 0 := by
    rintro rfl
    simp at h
  refine ⟨hne, ?_⟩
  rwa [List.getLast?_eq_getElem?, List.length_take, Nat.min_eq_left hn,
    List.getElem?_take_of_lt (by omega)] at h

/-- Cuts a list between neighbours the first of which belongs in front and the second does not. -/
def CutsAt (inFront : α → Bool) (xs : List α) (n : Nat) : Prop :=
  (∀ x ∈ (xs.take n).getLast?, inFront x = true) ∧ ∀ x ∈ (xs.drop n).head?, inFront x = false

theorem CutsAt.of_getElem? {inFront : α → Bool} {n : Nat} (hn : n ≤ xs.length)
    (hfront : n ≠ 0 → ∀ x ∈ xs[n - 1]?, inFront x = true)
    (hback : n ≠ xs.length → ∀ x ∈ xs[n]?, inFront x = false) : CutsAt inFront xs n := by
  constructor
  · intro x hx
    obtain ⟨hne, hx⟩ := mem_getLast?_take hx hn
    exact hfront hne x hx
  · intro x hx
    rw [List.head?_drop] at hx
    refine hback ?_ x hx
    rintro rfl
    simp at hx

/-- Halving cuts where its bounds are known to be right. -/
theorem bisect_cutsAt (inFront : α → Bool) {low high : Nat} (hlow : low ≤ high)
    (hhigh : high ≤ xs.length) (hfront : low = 0 ∨ xs[low - 1]?.any inFront = true)
    (hback : high = xs.length ∨ xs[high]?.any inFront = false) :
    CutsAt inFront xs (bisect inFront xs (xs.length + 1) low high) := by
  obtain ⟨n, hn, hge, hle, hlast, hhead⟩ := bisect_spec inFront xs (xs.length + 1) low high
    (by omega) hlow hhigh
  rw [hn]
  refine .of_getElem? (by omega) (fun hpos x hx => ?_) fun hlt x hx => ?_
  · by_cases heq : n = low
    · rw [heq] at hpos hx
      simpa [Option.mem_def.mp hx] using hfront.resolve_left hpos
    · exact hlast heq x hx
  · by_cases heq : n = high
    · rw [heq] at hlt hx
      simpa [Option.mem_def.mp hx] using hback.resolve_left hlt
    · exact hhead heq x hx

theorem insert_spec (lt : α → α → Bool) (xs : List α) (a : α) :
    ∃ front back, xs = front ++ back ∧ insert lt xs a = front ++ a :: back ∧
      (∀ x ∈ front.getLast?, lt a x = false) ∧ ∀ x ∈ back.head?, lt a x = true := by
  have hcut := bisect_cutsAt (fun x => !lt a x) (Nat.zero_le _) (Nat.le_refl xs.length) (.inl rfl)
    (.inl rfl)
  exact ⟨_, _, (List.take_append_drop _ xs).symm, rfl, by simpa using hcut.1, by simpa using hcut.2⟩

-- ---------------------------------------------------------------------------
-- Insertions
-- ---------------------------------------------------------------------------

theorem insert_perm (lt : α → α → Bool) (xs : List α) (a : α) : (insert lt xs a).Perm (a :: xs) := by
  obtain ⟨front, back, rfl, heq, -⟩ := insert_spec lt xs a
  rw [heq]
  exact List.perm_middle

theorem foldl_insert_perm (lt : α → α → Bool) (rest run : List α) :
    (rest.foldl (insert lt) run).Perm (run ++ rest) := by
  induction rest generalizing run with
  | nil => simp
  | cons a rest ih =>
    refine (ih _).trans ?_
    refine ((insert_perm lt run a).append_right rest).trans ?_
    exact List.perm_middle.symm

theorem insert_isChain {ys : List α} {a : α} (h : ys.IsChain (Fits lt before))
    (hb : ∀ y ∈ ys, before y a) : (insert lt ys a).IsChain (Fits lt before) := by
  obtain ⟨front, back, rfl, heq, hlast, hhead⟩ := insert_spec lt ys a
  obtain ⟨hfront, hback, -⟩ := List.isChain_append.mp h
  rw [heq]
  refine hfront.append (hback.cons fun y hy => ?_) fun x hx y hy => ?_
  · exact .inl ⟨hhead y hy, hb y (by simp [List.mem_of_mem_head? hy])⟩
  · obtain rfl : a = y := by simpa using hy
    exact .inr ⟨hlast x hx, hb x (by simp [List.mem_of_mem_getLast? hx])⟩

theorem foldl_insert_induction {P : List α → Prop} {run rest : List α} (hrest : rest.Pairwise before)
    (hcross : ∀ x ∈ run, ∀ y ∈ rest, before x y) (hrun : P run)
    (hinsert : ∀ ys a, (∀ y ∈ ys, y ∈ run ++ rest) → a ∈ rest → (∀ y ∈ ys, before y a) → P ys →
      P (insert lt ys a)) : P (rest.foldl (insert lt) run) := by
  induction rest generalizing run with
  | nil => exact hrun
  | cons a rest ih =>
    have hmem (x : α) : x ∈ insert lt run a ↔ x = a ∨ x ∈ run := by
      rw [(insert_perm lt run a).mem_iff, List.mem_cons]
    obtain ⟨ha, hrest⟩ := List.pairwise_cons.mp hrest
    refine ih hrest (fun x hx y hy => ?_) ?_ fun ys b hys hb => hinsert ys b (fun y hy => ?_) (.tail _ hb)
    · rcases (hmem x).mp hx with rfl | hx
      · exact ha y hy
      · exact hcross x hx y (.tail _ hy)
    · exact hinsert run a (fun y hy => List.mem_append_left _ hy) List.mem_cons_self
        (fun y hy => hcross y hy a List.mem_cons_self) hrun
    · have hy := hys y hy
      simp only [List.mem_append, List.mem_cons, hmem] at hy ⊢
      tauto

-- ---------------------------------------------------------------------------
-- The next run
-- ---------------------------------------------------------------------------

theorem nextRun_eq (lt : α → α → Bool) (shortest : Nat) (xs : List α) :
    nextRun lt shortest xs =
      (((leadingRun lt xs).2.take (shortest - (leadingRun lt xs).1.length)).foldl (insert lt)
        (leadingRun lt xs).1, (leadingRun lt xs).2.drop (shortest - (leadingRun lt xs).1.length)) :=
  rfl

theorem nextRun_perm (lt : α → α → Bool) (shortest : Nat) (xs : List α) :
    ((nextRun lt shortest xs).1 ++ (nextRun lt shortest xs).2).Perm xs := by
  rw [nextRun_eq]
  refine ((foldl_insert_perm lt _ _).append_right _).trans ?_
  rw [List.append_assoc, List.take_append_drop]
  exact leadingRun_perm lt xs

theorem nextRun_ne_nil (lt : α → α → Bool) (shortest : Nat) (hne : xs ≠ []) :
    (nextRun lt shortest xs).1 ≠ [] := by
  have hrun := List.length_pos_iff.mpr (leadingRun_ne_nil lt hne)
  refine List.length_pos_iff.mp ?_
  rw [nextRun_eq, (foldl_insert_perm lt _ _).length_eq, List.length_append]
  omega

theorem nextRun_isChain (lt : α → α → Bool) (shortest : Nat) (hb : xs.Pairwise before) :
    (nextRun lt shortest xs).1.IsChain (Fits lt before) := by
  obtain ⟨hcross, hrest⟩ := leadingRun_before lt hb
  rw [nextRun_eq]
  exact foldl_insert_induction (hrest.sublist (List.take_sublist _ _))
    (fun x hx y hy => hcross x hx y (List.mem_of_mem_take hy)) (leadingRun_isChain lt hb)
    fun ys a _ _ hbefore h => insert_isChain h hbefore

theorem nextRun_before (lt : α → α → Bool) (shortest : Nat) (hb : xs.Pairwise before) :
    (∀ x ∈ (nextRun lt shortest xs).1, ∀ y ∈ (nextRun lt shortest xs).2, before x y) ∧
      (nextRun lt shortest xs).2.Pairwise before := by
  obtain ⟨hcross, hrest⟩ := leadingRun_before lt hb
  rw [nextRun_eq]
  refine ⟨fun x hx y hy => ?_, hrest.sublist (List.drop_sublist _ _)⟩
  rcases List.mem_append.mp ((foldl_insert_perm lt _ _).mem_iff.mp hx) with hx | hx
  · exact hcross x hx y (List.mem_of_mem_drop hy)
  · rw [← List.take_append_drop (shortest - (leadingRun lt xs).1.length) (leadingRun lt xs).2] at hrest
    exact (List.pairwise_append.mp hrest).2.2 x hx y hy

end CallerFirst.Sorting
