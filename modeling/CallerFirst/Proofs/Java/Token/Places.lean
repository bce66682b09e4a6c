import CallerFirst.Java.Unit
import CallerFirst.Proofs.Java.Escape
import CallerFirst.Proofs.Java.Token.Offset

/-!
# Tokens of a source with escapes

Tokens are read of the text with its escapes replaced, and looked for in the text as it is. The two
places are the same exactly if no line break inside a token was missed on an earlier line, and no
escape stands on the line in front of the end of the token (`stands_at_offset_iff`).
-/

namespace CallerFirst

namespace Text

theorem lt_of_mem_lineStartsFrom (h : n ∈ lineStartsFrom offset text) : offset < n := by
  induction text generalizing offset with
  | nil => cases h
  | cons c text ih =>
    rw [lineStartsFrom] at h
    split at h
    · rcases List.mem_cons.mp h with rfl | h
      · exact Nat.lt_succ_self offset
      · exact Nat.lt_of_succ_lt (ih h)
    · exact Nat.lt_of_succ_lt (ih h)

theorem pairwise_lineStartsFrom (offset : Nat) (text : List Char) :
    (lineStartsFrom offset text).Pairwise (· < ·) := by
  induction text generalizing offset with
  | nil => exact .nil
  | cons c text ih =>
    rw [lineStartsFrom]
    split
    · exact .cons (fun n hn => lt_of_mem_lineStartsFrom hn) (ih (offset + 1))
    · exact ih (offset + 1)

theorem pairwise_lineStarts (text : List Char) : (lineStarts text).Pairwise (· < ·) :=
  .cons (fun _ hn => lt_of_mem_lineStartsFrom hn) (pairwise_lineStartsFrom 0 text)

theorem lineStarts_lt {i j m n : Nat} (hi : (lineStarts text)[i]? = some m)
    (hj : (lineStarts text)[j]? = some n) (hlt : i < j) : m < n := by
  obtain ⟨hi', rfl⟩ := List.getElem?_eq_some_iff.mp hi
  obtain ⟨hj', rfl⟩ := List.getElem?_eq_some_iff.mp hj
  exact List.pairwise_iff_getElem.mp (pairwise_lineStarts text) i j hi' hj' hlt

theorem slice_append (a b c : List Char) :
    slice (a ++ (b ++ c)) a.length (a.length + b.length) = b := by
  rw [slice, ← List.append_assoc, ← List.length_append, List.take_left, List.drop_left]

end Text

namespace Java.Token

open Escape

variable {source : List Char} {toks before : List Token} {t : Token}

/-- The token stands between two offsets of a source: it is read of what stands there with escapes
replaced, behind the tokens `before`. -/
inductive StandsAt (before : List Token) (t : Token) : List Char → Nat → Nat → Prop
  | mk {a b c front rest : List Char} {u v w : Bool} (hfront : Expands false a front u)
      (htoken : Expands u b t.text.toList v) (hrest : Expands v c rest w)
      (hread : ReadBehind (front ++ (t.text.toList ++ rest)) before t front.length) :
      StandsAt before t (a ++ (b ++ c)) a.length (a.length + b.length)

/-- Every line break inside a token of `before` is on the line of `t`. -/
def BreaksBeside (before : List Token) (t : Token) : Prop :=
  ∀ u ∈ before, '\n' ∈ u.text.toList → t.position.line ≤ u.position.line

instance : Decidable (BreaksBeside before t) :=
  inferInstanceAs (Decidable (∀ u ∈ before, _ → _))

theorem breaksBeside_iff :
    BreaksBeside before t ↔ breaksIn (onEarlierLines t.position.line before) = 0 := by
  rw [breaksIn_eq_zero]
  constructor
  · intro h u hu hbreak
    obtain ⟨hu, hearlier⟩ := List.mem_filter.mp hu
    exact absurd (h u hu hbreak) (not_le_of_gt (of_decide_eq_true hearlier))
  · intro h u hu hbreak
    by_contra hlt
    exact h u (List.mem_filter.mpr ⟨hu, decide_eq_true (not_le.mp hlt)⟩) hbreak

theorem atLineStart_of_expands (h : Expands false a b v) (hb : Text.AtLineStart b) :
    Text.AtLineStart a ∧ v = false := by
  obtain rfl | ⟨u, rfl⟩ := hb
  · cases h
    exact ⟨.inl rfl, rfl⟩
  · obtain ⟨hv, ha⟩ := h.of_break
    exact ⟨.inr ha, hv⟩

/-- A source cut behind the last line break that was counted, in front of a token, and behind it.
`plain` is the line in front of the token with escapes replaced. -/
structure CutAt (source : List Char) (before : List Token) (t : Token)
    (head line plain token rest : List Char) (u v : Bool) : Prop where
  source_eq : source = head ++ (line ++ (token ++ rest))
  starts : Text.AtLineStart head
  one_le : 1 ≤ t.position.line
  breaks : head.count '\n' + 1 = t.position.line + breaksIn (onEarlierLines t.position.line before)
  expandsLine : Expands false line plain u
  column : t.position.column = plain.length + 1
  expandsToken : Expands u token t.text.toList v
  reads : ∃ front behind w, Expands false head front false ∧ Expands v rest behind w ∧
    ReadBehind (front ++ (plain ++ (t.text.toList ++ behind))) before t (front.length + plain.length)

theorem exists_cutAt (hlines : KeepsLines source) (h : ofSource source = .ok toks)
    (hk : toks[k]? = some t) :
    ∃ head line plain token rest u v, CutAt source (toks.take k) t head line plain token rest u v := by
  obtain ⟨text, w, hexpands⟩ := hlines
  rw [ofSource, expand_of_expands hexpands] at h
  obtain ⟨s, front, plain, htracks, hposition, hread⟩ := exists_tracks h hk
  have hrest : s.rest = t.text.toList ++ s.rest.drop t.text.length := by
    rw [← hread.text, htracks.drop_index, List.take_append_drop]
  have htext : text = (front ++ plain) ++ (t.text.toList ++ s.rest.drop t.text.length) := by
    rw [List.append_assoc, ← hrest]
    exact htracks.source_eq
  rw [htracks.source_eq] at hexpands
  obtain ⟨head, behind, u, rfl, hfront, hbehind⟩ := hexpands.exists_cut
  obtain ⟨hstarts, rfl⟩ := atLineStart_of_expands hfront htracks.starts
  obtain ⟨line, behind, u, rfl, hline, hbehind⟩ := hbehind.exists_cut
  rw [hrest] at hbehind
  obtain ⟨token, rest, v, rfl, htoken, hrest⟩ := hbehind.exists_cut
  refine ⟨head, line, plain, token, rest, u, v, rfl, hstarts, hposition ▸ htracks.one_le, ?_, hline,
    hposition ▸ htracks.column, htoken, ?_⟩
  · rw [hfront.count_break, hposition]
    exact htracks.frontBreaks
  · refine ⟨front, _, w, hfront, hrest, ?_⟩
    rw [← List.append_assoc, ← htext, ← htracks.index]
    exact hread

theorem CutAt.stands (h : CutAt source before t head line plain token rest u v) :
    StandsAt before t source (head.length + line.length)
      (head.length + line.length + token.length) := by
  obtain ⟨front, behind, w, hfront, hbehind, hread⟩ := h.reads
  rw [h.source_eq, ← List.append_assoc, ← List.length_append]
  refine .mk (hfront.append h.expandsLine) h.expandsToken hbehind ?_
  rwa [List.append_assoc, List.length_append]

theorem CutAt.free_iff (h : CutAt source before t head line plain token rest u v) :
    Free (line ++ token) ↔ line.length = plain.length ∧ token.length = t.text.length := by
  have hline := h.expandsLine.length_le
  have htoken := h.expandsToken.length_le
  rw [Free, ← (h.expandsLine.append h.expandsToken).length_eq_iff]
  simp only [List.length_append, String.length_toList] at htoken ⊢
  omega

theorem CutAt.slice_line (h : CutAt source before t head line plain token rest u v) :
    Text.slice source head.length (head.length + line.length + token.length) = line ++ token := by
  rw [h.source_eq, Nat.add_assoc, ← List.length_append, ← List.append_assoc line]
  exact Text.slice_append head (line ++ token) rest

theorem CutAt.slice_token (h : CutAt source before t head line plain token rest u v) :
    Text.slice source (head.length + line.length) (head.length + line.length + token.length) =
      token := by
  rw [h.source_eq, ← List.append_assoc, ← List.length_append]
  exact Text.slice_append (head ++ line) token rest

theorem CutAt.lineStart (h : CutAt source before t head line plain token rest u v) :
    (Text.lineStarts source)[head.count '\n']? = some head.length := by
  rw [h.source_eq]
  exact h.starts.getElem?_lineStarts _

/-- Offsets fall behind by the breaks that were missed and by the escapes of the line. -/
theorem CutAt.offset_eq_iff (h : CutAt source before t head line plain token rest u v) :
    (Source.ofTokens source toks).offset t = .ok (head.length + line.length) ↔
      BreaksBeside before t ∧ line.length = plain.length := by
  have hbreaks := h.breaks
  have hone := h.one_le
  rw [breaksBeside_iff]
  constructor
  · intro hoffset
    unfold Source.offset at hoffset
    split at hoffset
    · rename_i start hstart
      have hsum : start + t.position.column - 1 = head.length + line.length :=
        Except.ok.inj hoffset
      have hline := h.expandsLine.length_le
      have hcolumn := h.column
      by_cases hlt : t.position.line - 1 < head.count '\n'
      · have := Text.lineStarts_lt hstart h.lineStart hlt
        omega
      · have hle : start ≤ head.length := by
          have heq : t.position.line - 1 = head.count '\n' := by omega
          rw [heq] at hstart
          exact (Option.some.inj (hstart.symm.trans h.lineStart)).le
        omega
    · cases hoffset
  · rintro ⟨hnone, hlength⟩
    rw [h.source_eq, hlength]
    exact offset_eq h.starts (by omega) h.column _ toks

theorem CutAt.line_eq (h : CutAt source before t head line plain token rest u v)
    (hbeside : BreaksBeside before t) : t.position.line - 1 = head.count '\n' := by
  have := h.breaks
  rw [breaksBeside_iff.mp hbeside] at this
  omega

/-- A token is looked for where it stands exactly if no line break was missed on an earlier line and
no escape stands on its line in front of its end. -/
theorem stands_at_offset_iff (hlines : KeepsLines source) (h : ofSource source = .ok toks)
    (hk : toks[k]? = some t) :
    ∃ n m, StandsAt (toks.take k) t source n m ∧
      ((Source.ofTokens source toks).offset t = .ok n ∧ n + t.text.length = m ↔
        BreaksBeside (toks.take k) t ∧
        ∃ start, (Text.lineStarts source)[t.position.line - 1]? = some start ∧
          Free (Text.slice source start m)) ∧
      (n + t.text.length = m → Text.slice source n m = t.text.toList) := by
  obtain ⟨head, line, plain, token, rest, u, v, hcut⟩ := exists_cutAt hlines h hk
  refine ⟨_, _, hcut.stands, ?_, fun hlength => ?_⟩
  · rw [hcut.offset_eq_iff]
    constructor
    · rintro ⟨⟨hbeside, hplain⟩, hlength⟩
      refine ⟨hbeside, head.length, hcut.line_eq hbeside ▸ hcut.lineStart, ?_⟩
      rw [hcut.slice_line]
      exact hcut.free_iff.mpr ⟨hplain, by omega⟩
    · rintro ⟨hbeside, start, hstart, hfree⟩
      rw [hcut.line_eq hbeside] at hstart
      obtain rfl := Option.some.inj (hcut.lineStart.symm.trans hstart)
      rw [hcut.slice_line] at hfree
      obtain ⟨hplain, htoken⟩ := hcut.free_iff.mp hfree
      exact ⟨⟨hbeside, hplain⟩, by omega⟩
  · rw [hcut.slice_token]
    refine hcut.expandsToken.eq_of_after (hcut.expandsToken.length_eq_iff.mp ?_)
    rw [String.length_toList]
    omega

def severalLines : List Char :=
  "/* ".toList ++ ('\\' :: 'u' :: ([] ++ ("0041".toList ++
    "\n*/ class A\x7b\r\n\tString s = \"x\ny\"; int b;\x7d".toList)))

theorem stands_at_offset_iff_severalLines :
    ∃ toks t n m, KeepsLines severalLines ∧ ofSource severalLines = .ok toks ∧ toks[9]? = some t ∧
      t.text = "b" ∧ StandsAt (toks.take 9) t severalLines n m ∧
      (Source.ofTokens severalLines toks).offset t = .ok n ∧ n + t.text.length = m ∧
      Text.slice severalLines n m = t.text.toList := by
  have hcode : Escape.codeOf "0041".toList = .ok 0x41 := by rfl
  have hlines : KeepsLines severalLines :=
    ⟨_, false, (Expands.of_after (by decide)).append (v := false) (.escape (by simp) (by decide)
      (by decide) (by decide) hcode (by decide) (.of_after (by decide)))⟩
  have hscanned : ((ofSource severalLines).toOption.any fun toks => toks[9]?.any fun t =>
      decide (t.text = "b" ∧ BreaksBeside (toks.take 9) t ∧
        (Text.lineStarts severalLines)[t.position.line - 1]? = some 23)) = true := by
    decide +kernel
  simp only [Option.any_eq_true, decide_eq_true_eq] at hscanned
  obtain ⟨toks, htoks, t, ht, htext, hbeside, hstart⟩ := hscanned
  have htoks := toOption_eq_some htoks
  obtain ⟨n, m, hstands, hplaced, hslice⟩ := stands_at_offset_iff hlines htoks ht
  have hfree : Free (Text.slice severalLines 23 m) := by
    have hline : Free (severalLines.drop 23) := by decide
    rw [← List.take_append_drop (m - 23) (severalLines.drop 23)] at hline
    rw [Text.slice, List.drop_take]
    exact hline.of_append
  obtain ⟨hoffset, hlength⟩ := hplaced.mpr ⟨hbeside, 23, hstart, hfree⟩
  exact ⟨toks, t, n, m, hlines, htoks, ht, htext, hstands, hoffset, hlength, hslice hlength⟩

def escapedLine : String :=
  "class A\x7bchar c='\\u0041';void b(){}void a(){b();}\x7d"

/-- Behind an escape of their line, tokens are looked for in front of where they stand. -/
theorem not_at_offset :
    ∃ unit toks, readUnit escapedLine = .ok unit ∧ ofSource escapedLine.toList = .ok toks ∧
      ∃ t ∈ toks, ∃ n, (Source.ofTokens escapedLine.toList toks).offset t = .ok n ∧
        Text.slice escapedLine.toList n (n + t.text.length) ≠ t.text.toList := by
  have h : ((readUnit escapedLine).toOption.any fun _ =>
      (ofSource escapedLine.toList).toOption.any fun toks => toks.any fun t =>
        ((Source.ofTokens escapedLine.toList toks).offset t).toOption.any fun n =>
          decide (Text.slice escapedLine.toList n (n + t.text.length) ≠ t.text.toList)) = true := by
    decide +kernel
  simp only [Option.any_eq_true, List.any_eq_true, decide_eq_true_eq] at h
  obtain ⟨unit, hread, toks, htoks, t, ht, n, hoffset, hslice⟩ := h
  exact ⟨unit, toks, toOption_eq_some hread, toOption_eq_some htoks, t, ht, n,
    toOption_eq_some hoffset, hslice⟩

end Java.Token

end CallerFirst
