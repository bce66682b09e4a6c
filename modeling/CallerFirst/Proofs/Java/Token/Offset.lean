import CallerFirst.Java.Span
import CallerFirst.Proofs.Java.Token.Reads
import Mathlib.Algebra.Order.BigOperators.Group.List
import Mathlib.Algebra.Order.Group.Nat
import Mathlib.Algebra.GroupWithZero.Nat

/-!
# Where tokens stand

Only line breaks between tokens are counted, so the line of a token falls behind by the breaks inside
tokens of earlier lines (`Scan.Tracks`). If no token holds a break, the place that a token was given
leads back to where it was read (`exists_readAt`).
-/

namespace CallerFirst

namespace Text

def AtLineStart (a : List Char) : Prop :=
  a = [] ∨ ∃ u, a = u ++ ['\n']

theorem getElem?_lineStartsFrom (start offset : Nat) (u b : List Char) :
    (start :: lineStartsFrom offset (u ++ '\n' :: b))[u.count '\n' + 1]? =
      some (offset + u.length + 1) := by
  induction u generalizing start offset with
  | nil => simp [lineStartsFrom]
  | cons c u ih =>
    simp only [List.cons_append, lineStartsFrom]
    by_cases hc : (c == '\n') = true
    · rw [if_pos hc, beq_iff_eq.mp hc, List.count_cons_self, List.getElem?_cons_succ, ih,
        List.length_cons]
      congr 1
      omega
    · rw [if_neg hc, List.count_cons_of_ne (by simpa using hc), ih, List.length_cons]
      congr 1
      omega

theorem AtLineStart.getElem?_lineStarts (h : AtLineStart a) (b : List Char) :
    (lineStarts (a ++ b))[a.count '\n']? = some a.length := by
  obtain rfl | ⟨u, rfl⟩ := h
  · rfl
  · have := getElem?_lineStartsFrom 0 0 u b
    simpa [lineStarts, Nat.zero_add] using this

theorem exists_last_break {a : List Char} (ha : '\n' ∈ a) :
    ∃ u v, a = u ++ '\n' :: v ∧ '\n' ∉ v ∧ a.reverse.takeWhile (· != '\n') = v.reverse := by
  obtain ⟨v, u, heq, hv⟩ := List.eq_append_cons_of_mem (List.mem_reverse.mpr ha)
  refine ⟨u.reverse, v.reverse, by simpa using congrArg List.reverse heq, by simpa using hv, ?_⟩
  rw [heq, List.reverse_reverse, Java.Token.takeWhile_stop (by simp), List.takeWhile_eq_self_iff]
  intro c hc
  simpa using fun (hbreak : c = '\n') => hv (hbreak ▸ hc)

end Text

namespace Java.Token

variable {source front line : List Char} {before : List Token} {s : Scan} {n k : Nat}

theorem length_gap_le (h : pieceAt i c r = .ok (.gap n)) : n ≤ (c :: r).length := by
  cases hc : Text.isBlank c with
  | true =>
    rw [pieceAt, if_pos hc] at h
    cases h
    have := (List.takeWhile_sublist Text.isBlank (l := r)).length_le
    simp only [List.length_cons]
    omega
  | false =>
    obtain ⟨rfl, ⟨s, rfl, rfl⟩ | ⟨s, m, rfl, hm, rfl⟩⟩ := pieceAt_gap hc h
    · simp only [lineLength, List.length_cons]
      omega
    · have := blockEnd?_le hm
      simp only [List.length_cons]
      omega

-- ---------------------------------------------------------------------------
-- Lines that are counted
-- ---------------------------------------------------------------------------

def breaksIn (ts : List Token) : Nat :=
  (ts.map fun t => t.text.toList.count '\n').sum

theorem breaksIn_append (ts us : List Token) : breaksIn (ts ++ us) = breaksIn ts + breaksIn us := by
  simp [breaksIn]

theorem breaksIn_eq_zero {ts : List Token} : breaksIn ts = 0 ↔ ∀ t ∈ ts, '\n' ∉ t.text.toList := by
  simp [breaksIn, List.sum_eq_zero_iff, List.count_eq_zero]

def onEarlierLines (line : Nat) (ts : List Token) : List Token :=
  ts.filter (·.position.line < line)

/-- The scan is behind the tokens `before` and behind `line`, the part of the source since the last
line break that was counted. Breaks inside tokens are missing from its number. -/
structure Scan.Tracks (source : List Char) (before : List Token) (front line : List Char) (s : Scan) :
    Prop where
  source_eq : source = front ++ (line ++ s.rest)
  index : s.index = front.length + line.length
  lineStart : s.lineStart = front.length
  starts : Text.AtLineStart front
  one_le : 1 ≤ s.line
  lines : ∀ t ∈ before, t.position.line ≤ s.line
  breaks : front.count '\n' + line.count '\n' + 1 = s.line + breaksIn before
  frontBreaks : front.count '\n' + 1 = s.line + breaksIn (onEarlierLines s.line before)

theorem Scan.Tracks.drop_index (h : s.Tracks source before front line) :
    source.drop s.index = s.rest := by
  rw [h.source_eq, h.index, ← List.append_assoc, ← List.length_append, List.drop_left]

theorem Scan.Tracks.skip_inline (h : s.Tracks source before front line) (hn : n ≤ s.rest.length)
    (hmem : '\n' ∉ s.rest.take n) :
    (s.skip n).Tracks source before front (line ++ s.rest.take n) := by
  have hlength : (s.rest.take n).length = n := by simpa using hn
  have hcount : (s.rest.take n).count '\n' = 0 := List.count_eq_zero.mpr hmem
  refine ⟨?_, ?_, ?_, h.starts, Nat.le_add_right_of_le h.one_le, ?_, ?_, ?_⟩
  · simp only [Scan.skip, List.append_assoc, List.take_append_drop]
    exact h.source_eq
  · simp only [Scan.skip, h.index, List.length_append, hlength, Nat.add_assoc]
  · simp only [Scan.skip, hcount, ↓reduceIte, h.lineStart]
  · simpa only [Scan.skip, hcount, Nat.add_zero] using h.lines
  · simpa only [Scan.skip, List.count_append, hcount, Nat.add_zero] using h.breaks
  · simpa only [Scan.skip, hcount, Nat.add_zero] using h.frontBreaks

theorem Scan.Tracks.skip_break {u v : List Char} (h : s.Tracks source before front line)
    (hn : n ≤ s.rest.length) (heq : s.rest.take n = u ++ '\n' :: v) (hv : '\n' ∉ v)
    (hlast : (s.rest.take n).reverse.takeWhile (· != '\n') = v.reverse) :
    (s.skip n).Tracks source before (front ++ line ++ u ++ ['\n']) v := by
  have hlength : u.length + 1 + v.length = n := by
    have hlength : (s.rest.take n).length = n := by simpa using hn
    rw [← hlength, heq]
    simp only [List.length_append, List.length_cons]
    omega
  have hcount : (s.rest.take n).count '\n' = u.count '\n' + 1 := by
    rw [heq, List.count_append, List.count_cons_self, List.count_eq_zero.mpr hv]
  have hrest : s.rest = u ++ '\n' :: v ++ s.rest.drop n := by
    rw [← heq, List.take_append_drop]
  have hall : onEarlierLines (s.skip n).line before = before := by
    refine List.filter_eq_self.mpr fun t ht => decide_eq_true ?_
    have := h.lines t ht
    simp only [Scan.skip]
    omega
  have hbreaks := h.breaks
  refine ⟨?_, ?_, ?_, .inr ⟨_, rfl⟩, Nat.le_add_right_of_le h.one_le, ?_, ?_, ?_⟩
  · simp only [Scan.skip]
    rw [h.source_eq]
    nth_rewrite 1 [hrest]
    simp
  · simp only [Scan.skip, h.index, List.length_append, List.length_singleton]
    omega
  · simp only [Scan.skip, if_neg (show (s.rest.take n).count '\n' ≠ 0 by omega), hlast, h.index,
      List.length_append, List.length_reverse, List.length_singleton]
    omega
  · intro t ht
    have := h.lines t ht
    simp only [Scan.skip]
    omega
  · simp only [Scan.skip, List.count_append, List.count_singleton_self, List.count_eq_zero.mpr hv,
      hcount]
    omega
  · rw [hall]
    simp only [Scan.skip, List.count_append, List.count_singleton_self, hcount]
    omega

theorem Scan.Tracks.skip (h : s.Tracks source before front line) (hn : n ≤ s.rest.length) :
    ∃ front line, (s.skip n).Tracks source before front line := by
  by_cases hmem : '\n' ∈ s.rest.take n
  · obtain ⟨u, v, heq, hv, hlast⟩ := Text.exists_last_break hmem
    exact ⟨_, _, h.skip_break hn heq hv hlast⟩
  · exact ⟨_, _, h.skip_inline hn hmem⟩

theorem Scan.Tracks.take (h : s.Tracks source before front line) (hn : n ≤ s.rest.length)
    (kind : TokenKind) :
    (s.take n).Tracks source (before ++ [⟨kind, String.ofList (s.rest.take n), s.position⟩]) front
      (line ++ s.rest.take n) := by
  have hlength : (s.rest.take n).length = n := by simpa using hn
  refine ⟨?_, ?_, h.lineStart, h.starts, h.one_le, ?_, ?_, ?_⟩
  · simp only [Scan.take, List.append_assoc, List.take_append_drop]
    exact h.source_eq
  · simp only [Scan.take, h.index, List.length_append, hlength, Nat.add_assoc]
  · intro t ht
    rcases List.mem_append.mp ht with ht | ht
    · exact h.lines t ht
    · rw [List.mem_singleton.mp ht]
      exact le_refl _
  · have := h.breaks
    simp only [Scan.take, List.count_append, breaksIn_append]
    simp only [breaksIn, List.map_cons, String.toList_ofList, List.map_nil, List.sum_singleton]
      at this ⊢
    omega
  · rw [onEarlierLines, List.filter_append,
      List.filter_cons_of_neg (by simp [Scan.take, Scan.position]), List.filter_nil, List.append_nil]
    exact h.frontBreaks

/-- The token was read at an offset of the text, behind the tokens `before`. -/
structure ReadBehind (source : List Char) (before : List Token) (t : Token) (n : Nat) : Prop where
  reads : Reads source (before.map lexeme) (source.drop n)
  reads_token : Reads (source.drop n) [t.lexeme] (source.drop (n + t.text.length))
  text : (source.drop n).take t.text.length = t.text.toList
  starts : StartsToken (source.drop n)

theorem Scan.Tracks.readBehind {kind : TokenKind} (h : s.Tracks source before front line)
    (hrest : s.rest = c :: a) (hp : pieceAt s.index c a = .ok (.token kind n))
    (hread : Reads source (before.map lexeme) s.rest) :
    ReadBehind source before ⟨kind, String.ofList ((c :: a).take n), s.position⟩ s.index := by
  have hdrop := h.drop_index
  rw [hrest] at hdrop hread
  have hlength : (String.ofList ((c :: a).take n)).length = min n (c :: a).length := by
    rw [String.length_ofList, List.length_take]
  have hbehind : source.drop (s.index + min n (c :: a).length) = (c :: a).drop n := by
    rw [← List.drop_drop, hdrop, ← List.drop_eq_drop_min]
  refine ⟨hdrop ▸ hread, ?_, ?_, c, a, kind, n, hdrop, pieceAt_index hp 0⟩
  · rw [hlength, hbehind, hdrop]
    exact reads_piece hp
  · rw [hlength, hdrop, String.toList_ofList, ← List.take_eq_take_min]

/-- At the end of the text there may be no line to be behind. -/
theorem Scans.tracks (h : Scans s toks)
    (htracks : s.rest ≠ [] → ∃ front line, s.Tracks source before front line)
    (hread : Reads source (before.map lexeme) s.rest) (hk : toks[k]? = some t) :
    ∃ s' front line, Scan.Tracks source (before ++ toks.take k) front line s' ∧
      t.position = s'.position ∧ ReadBehind source (before ++ toks.take k) t s'.index := by
  induction h generalizing before k with
  | done => cases hk
  | gap hrest hp _ ih =>
    obtain ⟨front, line, htracks⟩ := htracks (by simp [hrest])
    refine ih (fun _ => htracks.skip (hrest ▸ length_gap_le hp)) ?_ hk
    rw [hrest] at hread
    simpa [Scan.skip, hrest, Piece.lexemes, Piece.length] using hread.trans (reads_piece hp)
  | @token s c a toks kind l hrest hp _ ih =>
    obtain ⟨front, line, htracks⟩ := htracks (by simp [hrest])
    cases k with
    | zero =>
      cases hk
      exact ⟨s, front, line, by simpa using htracks, rfl,
        by simpa using htracks.readBehind hrest hp hread⟩
    | succ k =>
      have hnext : (s.take l).rest ≠ [] → ∃ front line, (s.take l).Tracks source
          (before ++ [⟨kind, String.ofList ((c :: a).take l), s.position⟩]) front line := by
        intro hmore
        have hle : l ≤ s.rest.length := by
          by_contra hlt
          exact hmore (List.drop_eq_nil_of_le (by omega))
        exact ⟨_, _, hrest ▸ htracks.take hle kind⟩
      rw [hrest] at hread
      have hrun := ih hnext ?_ hk
      · simpa using hrun
      · simpa [Scan.take, hrest, Piece.lexemes, Piece.length, lexeme] using
          hread.trans (reads_piece hp)

theorem exists_tracks (h : scan source = .ok toks) (hk : toks[k]? = some t) :
    ∃ s front line, Scan.Tracks source (toks.take k) front line s ∧ t.position = s.position ∧
      ReadBehind source (toks.take k) t s.index := by
  have hstart : Scan.Tracks source [] [] [] { rest := source } :=
    ⟨rfl, rfl, rfl, .inl rfl, le_refl 1, by simp, rfl, rfl⟩
  exact (scan_iff_scans.mp h).tracks (fun _ => ⟨[], [], hstart⟩) (.done source) hk

-- ---------------------------------------------------------------------------
-- Offsets
-- ---------------------------------------------------------------------------

theorem offset_eq (hfront : Text.AtLineStart front) (hline : t.position.line = front.count '\n' + 1)
    (hcolumn : t.position.column = n + 1) (rest : List Char) (tokens : List Token) :
    (Source.ofTokens (front ++ rest) tokens).offset t = .ok (front.length + n) := by
  simp only [Source.offset, Source.ofTokens, hline, Nat.add_sub_cancel, hcolumn,
    hfront.getElem?_lineStarts rest, ← Nat.add_assoc]

theorem Scan.Tracks.column (h : s.Tracks source before front line) :
    s.position.column = line.length + 1 := by
  simp only [Scan.position, h.index, h.lineStart, Nat.add_sub_cancel_left]

structure ReadAt (source : List Char) (before : List Token) (t : Token) (n : Nat) : Prop
    extends ReadBehind source before t n where
  offset : ∀ tokens, (Source.ofTokens source tokens).offset t = .ok n

theorem exists_readAt (h : scan source = .ok toks) (hbreaks : ∀ t ∈ toks, '\n' ∉ t.text.toList)
    (hk : toks[k]? = some t) : ∃ m, ReadAt source (toks.take k) t m := by
  obtain ⟨s, front, line, htracks, hposition, hread⟩ := exists_tracks h hk
  have hnone : breaksIn (onEarlierLines s.line (toks.take k)) = 0 :=
    breaksIn_eq_zero.mpr fun t ht => hbreaks t (List.mem_of_mem_take (List.mem_of_mem_filter ht))
  refine ⟨s.index, hread, fun tokens => ?_⟩
  rw [htracks.source_eq, htracks.index]
  refine offset_eq htracks.starts ?_ (hposition ▸ htracks.column) _ tokens
  rw [hposition, htracks.frontBreaks, hnone]
  rfl

end Java.Token

end CallerFirst
