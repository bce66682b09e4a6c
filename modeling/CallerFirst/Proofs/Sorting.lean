import CallerFirst.Proofs.Sorting.Map
import CallerFirst.Proofs.Sorting.Merge
import Mathlib.Order.Lattice

/-!
# What sorting does

Whatever the comparison says, sorting keeps the elements (`sort_perm`), and neighbours in the result
agree with it (`sort_isChain`). What follows from that in a transitive way holds of the whole result
(`sort_of_fits`). Where the comparison is consistent on the elements, the result is in order, and
elements that it cannot tell apart keep their order (`sort_stable`).
-/

namespace CallerFirst.Sorting

variable {α : Type} {lt : α → α → Bool} {before : α → α → Prop} {xs : List α}

-- ---------------------------------------------------------------------------
-- Runs behind each other
-- ---------------------------------------------------------------------------

/-- Merging two neighbours among some runs, given the later first, keeps `P`. -/
def KeptByMerges (lt : α → α → Bool) (P : List (List α) → Prop) : Prop :=
  ∀ later xs ys earlier threshold, P (later ++ ys :: xs :: earlier) →
    P (later ++ (merge lt threshold xs ys).1 :: earlier)

theorem keptByMerges_perm (lt : α → α → Bool) (zs : List α) :
    KeptByMerges lt fun runs => runs.flatten.Perm zs := by
  intro later xs ys earlier threshold h
  refine (List.Perm.trans ?_ h)
  have hmerged := (merge_perm lt threshold xs ys).trans List.perm_append_comm
  simpa using (hmerged.append_right earlier.flatten).append_left later.flatten

/-- Runs that fit, the later first; the elements of each came before those of the next. -/
structure Piled (lt : α → α → Bool) (before : α → α → Prop) (runs : List (List α)) : Prop where
  isChain : ∀ run ∈ runs, run.IsChain (Fits lt before)
  before : runs.Pairwise fun later earlier => ∀ x ∈ earlier, ∀ y ∈ later, before x y

theorem keptByMerges_piled (lt : α → α → Bool) (before : α → α → Prop) :
    KeptByMerges lt (Piled lt before) := by
  intro later xs ys earlier threshold ⟨hchain, hbefore⟩
  have hmem (x : α) : x ∈ (merge lt threshold xs ys).1 ↔ x ∈ xs ∨ x ∈ ys := by
    rw [(merge_perm lt threshold xs ys).mem_iff, List.mem_append]
  obtain ⟨hlater, hrest, hcross⟩ := List.pairwise_append.mp hbefore
  obtain ⟨hys, hrest⟩ := List.pairwise_cons.mp hrest
  obtain ⟨hxs, hearlier⟩ := List.pairwise_cons.mp hrest
  constructor
  · intro run hrun
    simp only [List.mem_append, List.mem_cons] at hrun hchain
    rcases hrun with hrun | rfl | hrun
    · exact hchain run (.inl hrun)
    · exact merge_isChain threshold (hys xs (by simp)) (hchain xs (by simp)) (hchain ys (by simp))
    · exact hchain run (by simp [hrun])
  · refine List.pairwise_append.mpr ⟨hlater, List.pairwise_cons.mpr ⟨fun run hrun => ?_, hearlier⟩,
      fun first hfirst run hrun => ?_⟩
    · intro x hx y hy
      rcases (hmem y).mp hy with hy | hy
      · exact hxs run hrun x hx y hy
      · exact hys run (by simp [hrun]) x hx y hy
    · rcases List.mem_cons.mp hrun with rfl | hrun
      · intro x hx y hy
        rcases (hmem x).mp hx with hx | hx
        · exact hcross first hfirst xs (by simp) x hx y hy
        · exact hcross first hfirst ys (by simp) x hx y hy
      · exact hcross first hfirst run (by simp [hrun])

namespace Stack

variable {P : List (List α) → Prop}

def runs (s : Stack α) : List (List α) :=
  s.top :: s.below.map (·.1)

theorem collapse_kept (hP : KeptByMerges lt P) (power : Nat) (below : List (List α × Nat))
    (top : List α) (threshold : Nat) (h : P (top :: below.map (·.1))) :
    P (collapse lt power below top threshold).runs := by
  induction below generalizing top threshold with
  | nil => exact h
  | cons first below ih =>
    obtain ⟨run, p⟩ := first
    unfold collapse
    split
    · exact ih _ _ (hP [] run top _ threshold h)
    · exact h

theorem mergeAll_kept (hP : KeptByMerges lt P) (below : List (List α × Nat)) (run top : List α)
    (threshold : Nat) (h : P (top :: run :: below.map (·.1))) :
    P [mergeAll lt below run top threshold] := by
  induction below generalizing run top threshold with
  | nil => exact hP [] run top [] threshold h
  | cons next below ih =>
    obtain ⟨first, p⟩ := next
    unfold mergeAll
    split
    · exact ih _ _ _ (hP [top] first run _ threshold h)
    · exact ih _ _ _ (hP [] run top _ threshold h)

theorem result_kept (hP : KeptByMerges lt P) (s : Stack α) (h : P s.runs) : P [s.result lt] := by
  unfold result
  match hs : s.below with
  | [] => simpa [runs, hs] using h
  | (run, p) :: below => exact mergeAll_kept hP below run s.top _ (by simpa [runs, hs] using h)

theorem runs_push (total : Nat) (s : Stack α) (run : List α) :
    (s.push lt total run).runs =
      run :: (collapse lt (s.power total run) s.below s.top s.threshold).runs :=
  rfl

end Stack

-- ---------------------------------------------------------------------------
-- The whole list
-- ---------------------------------------------------------------------------

theorem sortRuns_nil (lt : α → α → Bool) (shortest total fuel : Nat) (s : Stack α) :
    sortRuns lt shortest total fuel s [] = s.result lt := by
  cases fuel <;> rfl

theorem sort_eq (lt : α → α → Bool) (xs : List α) :
    sort lt xs =
      sortRuns lt (shortestRun xs.length xs.length) xs.length
        (nextRun lt (shortestRun xs.length xs.length) xs).2.length
        { top := (nextRun lt (shortestRun xs.length xs.length) xs).1 }
        (nextRun lt (shortestRun xs.length xs.length) xs).2 :=
  rfl

theorem sortRuns_perm (lt : α → α → Bool) (shortest total fuel : Nat) (s : Stack α) (rest : List α) :
    (sortRuns lt shortest total fuel s rest).Perm (s.runs.flatten ++ rest) := by
  have hresult (s : Stack α) : (s.result lt).Perm s.runs.flatten := by
    simpa using Stack.result_kept (keptByMerges_perm lt s.runs.flatten) s (.refl _)
  induction fuel generalizing s rest with
  | zero =>
    cases rest with
    | nil => simpa [sortRuns_nil] using hresult s
    | cons a rest => exact (hresult s).append_right _
  | succ fuel ih =>
    cases rest with
    | nil => simpa [sortRuns_nil] using hresult s
    | cons a rest =>
      refine (ih _ _).trans ?_
      have hcollapse := Stack.collapse_kept (keptByMerges_perm lt s.runs.flatten)
        (s.power total (nextRun lt shortest (a :: rest)).1) s.below s.top s.threshold (.refl _)
      rw [Stack.runs_push, List.flatten_cons]
      refine ((List.perm_append_comm.append_right _).trans ?_)
      rw [List.append_assoc]
      exact hcollapse.append (nextRun_perm lt shortest (a :: rest))

theorem sort_perm (lt : α → α → Bool) (xs : List α) : (sort lt xs).Perm xs := by
  rw [sort_eq]
  refine (sortRuns_perm lt _ _ _ _ _).trans ?_
  rw [Stack.runs, List.map_nil, List.flatten_singleton]
  exact nextRun_perm lt _ xs

theorem sortBy_perm (compare : α → α → Int) (xs : List α) : (sortBy compare xs).Perm xs :=
  sort_perm _ xs

theorem sortRuns_isChain (shortest total fuel : Nat) (s : Stack α) (rest : List α)
    (hs : Piled lt before s.runs) (hrest : rest.Pairwise before)
    (hcross : ∀ run ∈ s.runs, ∀ x ∈ run, ∀ y ∈ rest, before x y) (hfuel : rest.length ≤ fuel) :
    (sortRuns lt shortest total fuel s rest).IsChain (Fits lt before) := by
  have hresult (fuel : Nat) (s : Stack α) (hs : Piled lt before s.runs) :
      (sortRuns lt shortest total fuel s []).IsChain (Fits lt before) := by
    rw [sortRuns_nil]
    exact (Stack.result_kept (keptByMerges_piled lt before) s hs).isChain _ (by simp)
  induction fuel generalizing s rest with
  | zero =>
    obtain rfl := List.length_eq_zero_iff.mp (Nat.le_zero.mp hfuel)
    exact hresult 0 s hs
  | succ fuel ih =>
    cases rest with
    | nil => exact hresult _ s hs
    | cons a rest =>
      let run := (nextRun lt shortest (a :: rest)).1
      let behind := (nextRun lt shortest (a :: rest)).2
      have hperm : (run ++ behind).Perm (a :: rest) := nextRun_perm lt shortest (a :: rest)
      obtain ⟨hrun, hbehind⟩ := nextRun_before lt shortest hrest
      have hkept := Stack.collapse_kept (keptByMerges_piled lt before) (s.power total run) s.below
        s.top s.threshold hs
      have hsame := Stack.collapse_kept (keptByMerges_perm lt s.runs.flatten) (s.power total run)
        s.below s.top s.threshold (.refl _)
      -- what is in the stack came before the new run and what is behind it
      have hearlier : ∀ other ∈ (Stack.collapse lt (s.power total run) s.below s.top
          s.threshold).runs, ∀ x ∈ other, ∀ y ∈ run ++ behind, before x y := by
        intro other hother x hx y hy
        obtain ⟨earlier, hearlier, hx⟩ := List.mem_flatten.mp
          (hsame.mem_iff.mp (List.mem_flatten_of_mem hother hx))
        exact hcross earlier hearlier x hx y (hperm.mem_iff.mp hy)
      refine ih (s.push lt total run) behind ⟨fun other hother => ?_, ?_⟩ hbehind ?_ ?_
      · rcases List.mem_cons.mp hother with rfl | hother
        · exact nextRun_isChain lt shortest hrest
        · exact hkept.isChain other hother
      · refine List.pairwise_cons.mpr ⟨fun other hother x hx y hy => ?_, hkept.before⟩
        exact hearlier other hother x hx y (List.mem_append_left _ hy)
      · intro other hother x hx y hy
        rcases List.mem_cons.mp hother with rfl | hother
        · exact hrun x hx y hy
        · exact hearlier other hother x hx y (List.mem_append_right _ hy)
      · have hne := List.length_pos_iff.mpr (nextRun_ne_nil lt shortest (List.cons_ne_nil a rest))
        have hlength := hperm.length_eq
        simp only [List.length_append, List.length_cons, run, behind] at hlength hfuel ⊢
        omega

/-- Neighbours in the result agree with the comparison, whatever it says. -/
theorem sort_isChain (lt : α → α → Bool) (hb : xs.Pairwise before) :
    (sort lt xs).IsChain (Fits lt before) := by
  obtain ⟨hcross, hrest⟩ := nextRun_before lt (shortestRun xs.length xs.length) hb
  rw [sort_eq]
  refine sortRuns_isChain _ _ _ _ _ ⟨?_, List.pairwise_singleton _ _⟩ hrest ?_ (Nat.le_refl _)
  · intro run hrun
    obtain rfl := List.mem_singleton.mp hrun
    exact nextRun_isChain lt _ hb
  · intro run hrun
    obtain rfl := List.mem_singleton.mp hrun
    exact hcross

theorem pairwise_of_isChain {r : α → α → Prop} (h : xs.IsChain r)
    (htrans : ∀ x ∈ xs, ∀ y ∈ xs, ∀ z ∈ xs, r x y → r y z → r x z) : xs.Pairwise r := by
  induction xs with
  | nil => exact .nil
  | cons a xs ih =>
    obtain ⟨hhead, htail⟩ := List.isChain_cons.mp h
    have hxs := ih htail fun x hx y hy z hz => htrans x (.tail _ hx) y (.tail _ hy) z (.tail _ hz)
    refine List.pairwise_cons.mpr ⟨fun z hz => ?_, hxs⟩
    cases xs with
    | nil => cases hz
    | cons b xs =>
      have hab : r a b := hhead b rfl
      rcases List.mem_cons.mp hz with rfl | hz'
      · exact hab
      · exact htrans a (by simp) b (by simp) z (by simp [hz']) hab
          ((List.pairwise_cons.mp hxs).1 z hz')

/-- The result is in any transitive relation in which all are that may stand next to each other. -/
theorem sort_of_fits {r : α → α → Prop} (hb : xs.Pairwise before)
    (htrans : ∀ x ∈ xs, ∀ y ∈ xs, ∀ z ∈ xs, r x y → r y z → r x z)
    (hfits : ∀ x ∈ xs, ∀ y ∈ xs, Fits lt before x y → r x y) : (sort lt xs).Pairwise r := by
  have hmem {x : α} (hx : x ∈ sort lt xs) : x ∈ xs := (sort_perm lt xs).mem_iff.mp hx
  refine pairwise_of_isChain ?_ fun x hx y hy z hz => htrans x (hmem hx) y (hmem hy) z (hmem hz)
  exact (sort_isChain lt hb).imp_of_mem_imp fun x y hx hy => hfits x (hmem hx) y (hmem hy)

theorem sort_of_trans {r : α → α → Prop}
    (htrans : ∀ x ∈ xs, ∀ y ∈ xs, ∀ z ∈ xs, r x y → r y z → r x z)
    (hlt : ∀ x ∈ xs, ∀ y ∈ xs, lt x y = true → r x y)
    (hle : ∀ x ∈ xs, ∀ y ∈ xs, lt y x = false → r x y) : (sort lt xs).Pairwise r := by
  have hb : xs.Pairwise fun _ _ => True := List.pairwise_of_forall fun _ _ => trivial
  refine sort_of_fits hb htrans fun x hx y hy hxy => ?_
  rcases hxy with ⟨h, -⟩ | ⟨h, -⟩
  · exact hlt x hx y hy h
  · exact hle x hx y hy h

-- ---------------------------------------------------------------------------
-- Short lists
-- ---------------------------------------------------------------------------

theorem shortestRun_of_lt {n : Nat} (h : n < 64) : shortestRun n n = n := by
  cases n with
  | zero => rfl
  | succ n => simp [shortestRun, h]

theorem sort_of_short (lt : α → α → Bool) (h : xs.length < 64) :
    sort lt xs = (leadingRun lt xs).2.foldl (insert lt) (leadingRun lt xs).1 := by
  have hlength := (leadingRun_perm lt xs).length_eq
  rw [List.length_append] at hlength
  have hmissing : (leadingRun lt xs).2.length ≤ xs.length - (leadingRun lt xs).1.length := by omega
  rw [sort_eq, shortestRun_of_lt h, nextRun_eq, List.take_of_length_le hmissing,
    List.drop_of_length_le hmissing]
  rfl

theorem sort_induction {P : List α → Prop} (h : xs.length < 64) (hb : xs.Pairwise before)
    (hrun : P (leadingRun lt xs).1)
    (hinsert : ∀ ys a, (∀ y ∈ ys, y ∈ xs) → a ∈ xs → (∀ y ∈ ys, before y a) → P ys →
      P (insert lt ys a)) : P (sort lt xs) := by
  have hmem {x : α} : x ∈ (leadingRun lt xs).1 ++ (leadingRun lt xs).2 ↔ x ∈ xs :=
    (leadingRun_perm lt xs).mem_iff
  obtain ⟨hcross, hrest⟩ := leadingRun_before lt hb
  rw [sort_of_short lt h]
  exact foldl_insert_induction hrest hcross hrun fun ys a hys ha =>
    hinsert ys a (fun y hy => hmem.mp (hys y hy)) (hmem.mp (List.mem_append_right _ ha))

-- ---------------------------------------------------------------------------
-- Consistent comparisons
-- ---------------------------------------------------------------------------

/-- On these elements the comparison is a strict order up to ties. -/
structure Consistent (lt : α → α → Bool) (xs : List α) : Prop where
  asymm : ∀ a ∈ xs, ∀ b ∈ xs, lt a b = true → lt b a = false
  trans : ∀ a ∈ xs, ∀ b ∈ xs, ∀ c ∈ xs, lt b a = false → lt c b = false → lt c a = false

namespace Consistent

theorem lt_trans (h : Consistent lt xs) (ha : a ∈ xs) (hb : b ∈ xs) (hc : c ∈ xs)
    (hab : lt a b = true) (hbc : lt b c = true) : lt a c = true := by
  by_contra hac
  have hba := h.trans b hb c hc a ha (h.asymm b hb c hc hbc) (by simpa using hac)
  simp [hab] at hba

theorem lt_of_lt_of_le (h : Consistent lt xs) (ha : a ∈ xs) (hb : b ∈ xs) (hc : c ∈ xs)
    (hab : lt a b = true) (hbc : lt c b = false) : lt a c = true := by
  by_contra hac
  have hba := h.trans b hb c hc a ha hbc (by simpa using hac)
  simp [hab] at hba

theorem lt_of_le_of_lt (h : Consistent lt xs) (ha : a ∈ xs) (hb : b ∈ xs) (hc : c ∈ xs)
    (hab : lt b a = false) (hbc : lt b c = true) : lt a c = true := by
  by_contra hac
  have hcb := h.trans c hc a ha b hb (by simpa using hac) hab
  simp [hbc] at hcb

theorem of_key [LinearOrder κ] (key : α → κ)
    (h : ∀ a ∈ xs, ∀ b ∈ xs, lt a b = true ↔ key a < key b) : Consistent lt xs where
  asymm a ha b hb hab := by
    rw [h a ha b hb] at hab
    rw [Bool.eq_false_iff, Ne, h b hb a ha]
    exact not_lt_of_gt hab
  trans a ha b hb c hc hab hbc := by
    rw [Bool.eq_false_iff, Ne, h b hb a ha, not_lt] at hab
    rw [Bool.eq_false_iff, Ne, h c hc b hb, not_lt] at hbc
    rw [Bool.eq_false_iff, Ne, h c hc a ha, not_lt]
    exact le_trans hab hbc

theorem congr {lt' : α → α → Bool} (h : Consistent lt' xs)
    (heq : ∀ a ∈ xs, ∀ b ∈ xs, lt a b = lt' a b) : Consistent lt xs where
  asymm a ha b hb hab := by
    rw [heq a ha b hb] at hab
    rw [heq b hb a ha]
    exact h.asymm a ha b hb hab
  trans a ha b hb c hc hba hcb := by
    rw [heq b hb a ha] at hba
    rw [heq c hc b hb] at hcb
    rw [heq c hc a ha]
    exact h.trans a ha b hb c hc hba hcb

theorem mono (h : Consistent lt xs) (hs : ∀ a ∈ ys, a ∈ xs) : Consistent lt ys :=
  ⟨fun a ha b hb => h.asymm a (hs a ha) b (hs b hb),
    fun a ha b hb c hc => h.trans a (hs a ha) b (hs b hb) c (hs c hc)⟩

end Consistent

/-- In order, and in the order `before` among elements that are not told apart. -/
def InOrder (lt : α → α → Bool) (before : α → α → Prop) (a b : α) : Prop :=
  lt a b = true ∨ (lt b a = false ∧ before a b)

theorem InOrder.not_lt (h : Consistent lt xs) (ha : a ∈ xs) (hb : b ∈ xs)
    (hab : InOrder lt before a b) : lt b a = false := by
  rcases hab with hab | ⟨hab, -⟩
  · exact h.asymm a ha b hb hab
  · exact hab

theorem InOrder.trans (h : Consistent lt xs) (htrans : ∀ a b c, before a b → before b c → before a c)
    (ha : a ∈ xs) (hb : b ∈ xs) (hc : c ∈ xs) (hab : InOrder lt before a b)
    (hbc : InOrder lt before b c) : InOrder lt before a c := by
  rcases hab with hab | ⟨hab, hab'⟩
  · rcases hbc with hbc | ⟨hbc, -⟩
    · exact .inl (h.lt_trans ha hb hc hab hbc)
    · exact .inl (h.lt_of_lt_of_le ha hb hc hab hbc)
  · rcases hbc with hbc | ⟨hbc, hbc'⟩
    · exact .inl (h.lt_of_le_of_lt ha hb hc hab hbc)
    · exact .inr ⟨h.trans a ha b hb c hc hab hbc, htrans a b c hab' hbc'⟩

theorem zipIdx_pairwise (xs : List α) : xs.zipIdx.Pairwise fun x y => x.2 < y.2 := by
  refine List.pairwise_iff_getElem.mpr fun i j hi hj hij => ?_
  simpa using hij

theorem sort_eq_map_zipIdx (lt : α → α → Bool) (xs : List α) :
    sort lt xs = (sort (fun x y => lt x.1 y.1) xs.zipIdx).map Prod.fst := by
  have htagged : xs.zipIdx.map Prod.fst = xs := by simp
  rw [← sort_map Prod.fst lt, htagged]

theorem Consistent.tagged (h : Consistent lt xs) :
    Consistent (fun x y => lt x.1 y.1) xs.zipIdx := by
  have hmem {x : α × Nat} (hx : x ∈ xs.zipIdx) : x.1 ∈ xs := List.fst_mem_of_mem_zipIdx hx
  exact ⟨fun a ha b hb => h.asymm _ (hmem ha) _ (hmem hb),
    fun a ha b hb c hc => h.trans _ (hmem ha) _ (hmem hb) _ (hmem hc)⟩

/-- The result of sorting by a consistent comparison is in order; `before` is any relation that the
list is in, for instance that of places in it. -/
theorem sort_stable (before : α → α → Prop) (h : Consistent lt xs) (hb : xs.Pairwise before) :
    (sort lt xs).Pairwise (InOrder lt before) := by
  -- `before` need not be transitive, but the order of places is
  have htagged : (sort (fun x y => lt x.1 y.1) xs.zipIdx).Pairwise
      (InOrder (fun x y => lt x.1 y.1) fun x y => x.2 < y.2) := by
    refine sort_of_fits (zipIdx_pairwise xs) (fun x hx y hy z hz => ?_) fun x _ y _ => ?_
    · exact InOrder.trans h.tagged (fun _ _ _ => Nat.lt_trans) hx hy hz
    · exact Or.imp_left And.left
  rw [sort_eq_map_zipIdx, List.pairwise_map]
  refine htagged.imp_of_mem fun {x y} hx hy hxy => hxy.imp_right (And.imp_right fun hlt => ?_)
  have hget {z : α × Nat} (hz : z ∈ sort (fun x y => lt x.1 y.1) xs.zipIdx) :
      ∃ hi : z.2 < xs.length, z.1 = xs[z.2] := by
    have hz := List.mk_mem_zipIdx_iff_getElem?.mp ((sort_perm _ _).mem_iff.mp hz)
    obtain ⟨hi, heq⟩ := List.getElem?_eq_some_iff.mp hz
    exact ⟨hi, heq.symm⟩
  obtain ⟨hi, hx⟩ := hget hx
  obtain ⟨hj, hy⟩ := hget hy
  rw [hx, hy]
  exact List.pairwise_iff_getElem.mp hb x.2 y.2 hi hj hlt

theorem sort_pairwise (h : Consistent lt xs) : (sort lt xs).Pairwise fun a b => lt b a = false := by
  have hs := sort_stable (fun _ _ => True) h (List.pairwise_of_forall fun _ _ => trivial)
  refine hs.imp_of_mem fun {a b} ha hb hab => ?_
  exact hab.not_lt h ((sort_perm lt xs).mem_iff.mp ha) ((sort_perm lt xs).mem_iff.mp hb)

-- ---------------------------------------------------------------------------
-- Places in a list in order
-- ---------------------------------------------------------------------------

theorem lt_of_pairwise {r : α → α → Prop} {i j : Nat} (h : xs.Pairwise r) (hi : xs[i]? = some a)
    (hj : xs[j]? = some b) (hne : a ≠ b) (hr : ¬r b a) : i < j := by
  obtain ⟨hil, rfl⟩ := List.getElem?_eq_some_iff.mp hi
  obtain ⟨hjl, rfl⟩ := List.getElem?_eq_some_iff.mp hj
  by_contra hji
  rcases Nat.lt_or_eq_of_le (Nat.le_of_not_lt hji) with hji | rfl
  · exact hr (List.pairwise_iff_getElem.mp h j i hjl hil hji)
  · exact hne rfl

theorem eq_filter_append_filter {q : α → Bool}
    (h : xs.Pairwise fun a b => q b = true → q a = true) :
    xs = xs.filter q ++ xs.filter (!q ·) := by
  induction xs with
  | nil => rfl
  | cons a xs ih =>
    obtain ⟨ha, hxs⟩ := List.pairwise_cons.mp h
    cases hq : q a with
    | true =>
      rw [List.filter_cons_of_pos hq, List.filter_cons_of_neg (by simp [hq]), List.cons_append,
        ← ih hxs]
    | false =>
      have hnone : xs.filter q = [] := by
        refine List.filter_eq_nil_iff.mpr fun b hb hqb => ?_
        rw [ha b hb hqb] at hq
        cases hq
      have hall : xs.filter (!q ·) = xs := by
        refine List.filter_eq_self.mpr fun b hb => ?_
        simpa using List.filter_eq_nil_iff.mp hnone b hb
      rw [List.filter_cons_of_neg (by simp [hq]), List.filter_cons_of_pos (by simp [hq]), hnone, hall,
        List.nil_append]

theorem sort_key_le [LinearOrder κ] (key : α → κ)
    (h : ∀ a ∈ xs, ∀ b ∈ xs, lt a b = true ↔ key a < key b) :
    (sort lt xs).Pairwise fun a b => key a ≤ key b := by
  refine (sort_pairwise (.of_key key h)).imp_of_mem fun {a b} ha hb hab => ?_
  have hmem {c : α} (hc : c ∈ sort lt xs) : c ∈ xs := (sort_perm lt xs).mem_iff.mp hc
  rwa [Bool.eq_false_iff, Ne, h b (hmem hb) a (hmem ha), not_lt] at hab

theorem pairwise_idxOf [DecidableEq α] {xs : List α} (h : xs.Nodup) :
    xs.Pairwise fun a b => xs.idxOf a < xs.idxOf b := by
  refine List.pairwise_iff_getElem.mpr fun i j hi hj hij => ?_
  rwa [h.idxOf_getElem i hi, h.idxOf_getElem j hj]

theorem lt_iff_idxOf_lt [DecidableEq α] {ys : List α} (hself : ∀ a ∈ ys, lt a a = false)
    (hstrict : ys.Pairwise fun a b => lt a b = true ∧ lt b a = false) (ha : a ∈ ys) (hb : b ∈ ys) :
    lt a b = true ↔ ys.idxOf a < ys.idxOf b := by
  have hget := List.pairwise_iff_getElem.mp hstrict
  have hia := List.idxOf_lt_length_of_mem ha
  have hib := List.idxOf_lt_length_of_mem hb
  rcases Nat.lt_trichotomy (ys.idxOf a) (ys.idxOf b) with h | h | h
  · simpa [h] using (hget _ _ hia hib h).1
  · obtain rfl := (List.idxOf_inj ha).mp h
    simp [hself a ha]
  · have := (hget _ _ hib hia h).2
    simp only [List.getElem_idxOf] at this
    simp [this, h.le]

theorem sort_eq_of_strict [DecidableEq α] {xs ys : List α} (hperm : xs.Perm ys)
    (hself : ∀ a ∈ ys, lt a a = false)
    (hstrict : ys.Pairwise fun a b => lt a b = true ∧ lt b a = false) : sort lt xs = ys := by
  have hnodup : ys.Nodup := by
    refine hstrict.imp_of_mem ?_
    rintro a b ha hb hab rfl
    exact absurd hab.1 (by simp [hself a ha])
  have hsorted : (sort lt xs).Pairwise fun a b => ys.idxOf a ≤ ys.idxOf b :=
    sort_key_le ys.idxOf fun a ha b hb =>
      lt_iff_idxOf_lt hself hstrict (hperm.mem_iff.mp ha) (hperm.mem_iff.mp hb)
  refine List.Perm.eq_of_pairwise (fun a b ha hb hab hba => ?_) hsorted
    ((pairwise_idxOf hnodup).imp Nat.le_of_lt) ((sort_perm lt xs).trans hperm)
  exact ((List.idxOf_inj hb).mp (Nat.le_antisymm hba hab)).symm

theorem pair_sublist_or {xs : List α} (ha : a ∈ xs) (hb : b ∈ xs) (hne : a ≠ b) :
    [a, b].Sublist xs ∨ [b, a].Sublist xs := by
  induction xs with
  | nil => cases ha
  | cons x xs ih =>
    rcases List.mem_cons.mp ha with rfl | ha'
    · have hb' := (List.mem_cons.mp hb).resolve_left hne.symm
      exact .inl ((List.singleton_sublist.mpr hb').cons_cons _)
    · rcases List.mem_cons.mp hb with rfl | hb'
      · exact .inr ((List.singleton_sublist.mpr ha').cons_cons _)
      · exact (ih ha' hb').imp (·.cons _) (·.cons _)

theorem pair_sublist {r : α → α → Prop} {xs : List α} (h : xs.Pairwise r) (ha : a ∈ xs)
    (hb : b ∈ xs) (hne : a ≠ b) (hr : ¬r b a) : [a, b].Sublist xs :=
  (pair_sublist_or ha hb hne).resolve_right fun hba =>
    hr (List.pairwise_iff_forall_sublist.mp h hba)

end CallerFirst.Sorting
