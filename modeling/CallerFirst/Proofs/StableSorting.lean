import CallerFirst.Proofs.Sorting

/-!
# Stable sorts

Only verdicts on the elements count (`sort_congr`). Where they are consistent, there is one stable
sort: what is in order, with ties as they stood, is what sorting gives (`sort_eq_of_inOrder`).
-/

namespace CallerFirst.Sorting

variable {α β : Type}

-- ---------------------------------------------------------------------------
-- One stable sort
-- ---------------------------------------------------------------------------

variable {lt lt' : α → α → Bool} {before : α → α → Prop} {xs ys : List α}

theorem sort_eq_of_inOrder (h : Consistent lt xs) (hb : xs.Pairwise before)
    (hasymm : ∀ a b, before a b → ¬before b a) (hperm : ys.Perm xs)
    (hys : ys.Pairwise (InOrder lt before)) : sort lt xs = ys := by
  have hsorted := sort_stable before h hb
  refine List.Perm.eq_of_pairwise (fun a b ha hb hab hba => ?_) hsorted hys
    ((sort_perm lt xs).trans hperm.symm)
  have ha := (sort_perm lt xs).mem_iff.mp ha
  have hb := hperm.mem_iff.mp hb
  rcases hab with hab | ⟨hnot, hab⟩
  · rcases hba with hba | ⟨hnot, -⟩
    · simp [h.asymm a ha b hb hab] at hba
    · simp [hab] at hnot
  · rcases hba with hba | ⟨-, hba⟩
    · simp [hba] at hnot
    · exact absurd hba (hasymm a b hab)

theorem sort_congr (heq : ∀ a ∈ xs, ∀ b ∈ xs, lt a b = lt' a b) : sort lt xs = sort lt' xs := by
  have hattach (lt : α → α → Bool) :
      sort lt xs = (sort (fun x y => lt x.1 y.1) xs.attach).map Subtype.val := by
    rw [← sort_map, List.attach_map_subtype_val]
  have hsame : (fun x y : { a // a ∈ xs } => lt x.1 y.1) = fun x y => lt' x.1 y.1 :=
    funext fun x => funext fun y => heq x.1 x.2 y.1 y.2
  rw [hattach lt, hattach lt', hsame]

theorem sort_of_ties (h : ∀ a b, lt a b = false) (xs : List α) : sort lt xs = xs := by
  have hconsistent : Consistent lt xs := ⟨fun _ _ _ _ _ => h _ _, fun _ _ _ _ _ _ _ _ => h _ _⟩
  rw [sort_eq_map_zipIdx, sort_eq_of_inOrder hconsistent.tagged (zipIdx_pairwise xs)
    (fun _ _ => Nat.lt_asymm) (.refl _)]
  · simp
  · exact (zipIdx_pairwise xs).imp fun hxy => .inr ⟨h _ _, hxy⟩

end CallerFirst.Sorting
