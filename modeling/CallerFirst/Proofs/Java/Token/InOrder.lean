import CallerFirst.Proofs.Java.Token.InPlace

/-!
# Tokens in order

Line breaks inside tokens are not counted, and yet tokens stand in the order of their places
(`pairwise_before`): on one number of a line they count their columns from the same place. So no two
tokens have one position, and a line that the text has is in front of no line that it lacks.
-/

namespace CallerFirst.Java

/-- The position comes first in the text. -/
def Position.Before (p q : Position) : Prop :=
  p.line < q.line ∨ p.line = q.line ∧ p.column < q.column

theorem Position.Before.ne {p q : Position} (h : p.Before q) : p ≠ q := by
  rintro rfl
  rcases h with h | ⟨-, h⟩ <;> exact lt_irrefl _ h

namespace Token

variable {source : List Char} {toks : List Token} {i j : Nat}

theorem pairwise_line (h : scan source = .ok toks) :
    toks.Pairwise fun t u => t.position.line ≤ u.position.line := by
  refine List.pairwise_iff_getElem.mpr fun i j hi hj hij => ?_
  obtain ⟨s, front, line, htracks, hposition, -⟩ := exists_tracks h (List.getElem?_eq_getElem hj)
  rw [hposition]
  exact htracks.lines _ (List.mem_take_iff_getElem.mpr ⟨i, by omega, rfl⟩)

theorem onEarlierLines_take (h : scan source = .ok toks) (hi : i < toks.length) (hij : i ≤ j) :
    onEarlierLines toks[i].position.line (toks.take j) =
      onEarlierLines toks[i].position.line (toks.take i) := by
  have hsplit : toks.take j = toks.take i ++ (toks.take j).drop i := by
    nth_rewrite 1 [← List.take_append_drop i (toks.take j)]
    rw [List.take_take, Nat.min_eq_left hij]
  have hrest : onEarlierLines toks[i].position.line ((toks.take j).drop i) = [] := by
    refine List.filter_eq_nil_iff.mpr fun u hu => ?_
    obtain ⟨k, hk, rfl⟩ := List.mem_drop_iff_getElem.mp hu
    rw [List.getElem_take, decide_eq_true_eq, not_lt]
    rcases Nat.eq_zero_or_pos k with rfl | hpos
    · simp
    · exact List.pairwise_iff_getElem.mp (pairwise_line h) i (i + k) hi _ (by omega)
  rw [hsplit, onEarlierLines, List.filter_append]
  exact (congrArg _ hrest).trans (List.append_nil _)

theorem pairwise_before (h : ofSource source = .ok toks) :
    toks.Pairwise fun t u => t.position.Before u.position := by
  obtain ⟨text, h⟩ : ∃ text, scan text = .ok toks := by
    unfold ofSource at h
    split at h
    · exact ⟨_, h⟩
    · cases h
    · cases h
  refine List.pairwise_iff_getElem.mpr fun i j hi hj hij => ?_
  obtain ⟨s, front, line, htracks, hposition, hread⟩ :=
    exists_tracks h (List.getElem?_eq_getElem hi)
  obtain ⟨s', front', line', htracks', hposition', hread'⟩ :=
    exists_tracks h (List.getElem?_eq_getElem hj)
  have hline := List.pairwise_iff_getElem.mp (pairwise_line h) i j hi hj hij
  refine (lt_or_eq_of_le hline).imp id fun hsame => ⟨hsame, ?_⟩
  have hbreaks : front.count '\n' = front'.count '\n' := by
    have hnumber : s.line = toks[i].position.line := (congrArg Position.line hposition).symm
    have hnumber' : s'.line = toks[i].position.line :=
      (congrArg Position.line hposition').symm.trans hsame.symm
    have hfront := htracks.frontBreaks
    have hfront' := htracks'.frontBreaks
    rw [hnumber] at hfront
    rw [hnumber', onEarlierLines_take h hi hij.le, ← hfront] at hfront'
    omega
  have hstart : front.length = front'.length := by
    have hat := htracks.starts.getElem?_lineStarts (line ++ s.rest)
    have hat' := htracks'.starts.getElem?_lineStarts (line' ++ s'.rest)
    rw [← htracks.source_eq, hbreaks] at hat
    rw [← htracks'.source_eq] at hat'
    exact Option.some.inj (hat.symm.trans hat')
  have hstop := hread.stop_le hread' (by simp only [List.length_take]; omega)
  have hpos := hread.length_pos
  rw [hposition, hposition', htracks.column, htracks'.column]
  have := htracks.index
  have := htracks'.index
  omega

theorem nodup_position (h : ofSource source = .ok toks) : (toks.map (·.position)).Nodup :=
  List.pairwise_map.mpr ((pairwise_before h).imp Position.Before.ne)

/-- If a token is on a line that the text has, then so are those in front of it. -/
theorem exists_offset_of_le {tokens : List Token} (h : ofSource source = .ok toks) (hij : i ≤ j)
    (hj : j < toks.length) (hoffset : (Source.ofTokens source tokens).offset toks[j] = .ok n) :
    ∃ m, (Source.ofTokens source tokens).offset toks[i] = .ok m := by
  have hline : toks[i].position.line ≤ toks[j].position.line := by
    rcases Nat.eq_or_lt_of_le hij with rfl | hlt
    · exact le_refl _
    · have hbefore := List.pairwise_iff_getElem.mp (pairwise_before h) i j (by omega) hj hlt
      exact hbefore.elim le_of_lt fun hsame => hsame.1.le
  unfold Source.offset at hoffset ⊢
  split at hoffset
  · rename_i start hstart
    have hlength := (List.getElem?_eq_some_iff.mp hstart).1
    have hfound : toks[i].position.line - 1 < (Source.ofTokens source tokens).lineStarts.length := by
      omega
    rw [List.getElem?_eq_getElem hfound]
    exact ⟨_, rfl⟩
  · cases hoffset

end Token

end CallerFirst.Java
