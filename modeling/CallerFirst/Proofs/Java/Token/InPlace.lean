import CallerFirst.Proofs.Java.Token.Places

/-!
# Tokens in their places

Where every token stands at its offset (`EachInPlace`), the cuts of the source in front of and behind
tokens follow the order of the tokens (`Placed.stop_le`). What stands between two neighbours is read
as nothing, and it holds a line break or no escape (`Placed.gap`).
-/

namespace CallerFirst.Java.Token

open Escape

variable {source text : List Char} {toks before before' : List Token} {t t' : Token}
variable {n n' m f f' k : Nat} {w w' : Bool}

-- ---------------------------------------------------------------------------
-- Cuts
-- ---------------------------------------------------------------------------

/-- The source is cut where the text that it stands for is cut. A backslash waits there if `w`. -/
structure Cut (source text : List Char) (n f : Nat) (w : Bool) : Prop where
  le : n ≤ source.length
  le_text : f ≤ text.length
  front : Expands false (source.take n) (text.take f) w
  behind : ∃ v, Expands w (source.drop n) (text.drop f) v

theorem Cut.of_append {a b c d : List Char} {v : Bool} (h : Expands false a b w)
    (h' : Expands w c d v) : Cut (a ++ c) (b ++ d) a.length b.length w :=
  ⟨by simp, by simp, by simpa using h, v, by simpa using h'⟩

theorem Cut.expands (h : Cut source text n f w) : ∃ v, Expands false source text v := by
  obtain ⟨v, hv⟩ := h.behind
  have := h.front.append hv
  rw [List.take_append_drop, List.take_append_drop] at this
  exact ⟨v, this⟩

theorem take_eq_append {a b : List Char} (hn : n ≤ source.length) (ha : source.take n = a)
    (hb : source.take m = a ++ b) : a.length = n ∧ b = Text.slice source n m := by
  have hlength : a.length = n := by rw [← ha, List.length_take, Nat.min_eq_left hn]
  refine ⟨hlength, ?_⟩
  rw [Text.slice, hb, ← hlength, List.drop_left]

theorem Cut.between (h : Cut source text n f w) (h' : Cut source text n' f' w') (hle : f ≤ f') :
    n ≤ n' ∧ Expands w (Text.slice source n n') (Text.slice text f f') w' := by
  obtain ⟨v, hv⟩ := h.behind
  obtain ⟨v', hv'⟩ := h'.behind
  obtain ⟨x, y, hx, hy, hxy⟩ := h.front.between hv h'.front hv'
    (by rw [List.take_append_drop, List.take_append_drop])
    (by rw [List.length_take, List.length_take]; omega)
  obtain ⟨hlength, rfl⟩ := take_eq_append h.le rfl hx
  obtain ⟨-, rfl⟩ := take_eq_append h.le_text rfl hy
  refine ⟨?_, hxy⟩
  have := congrArg List.length hx
  rw [List.length_append, hlength, List.length_take] at this
  omega

theorem Cut.eq (h : Cut source text n f w) (h' : Cut source text n' f w') : n = n' :=
  le_antisymm (h.between h' (le_refl f)).1 (h'.between h (le_refl f)).1

theorem length_slice (h : n ≤ source.length) : (Text.slice source m n).length = n - m := by
  rw [Text.slice, List.length_drop, List.length_take, Nat.min_eq_left h]

theorem Cut.length_le (h : Cut source text n f w) (h' : Cut source text n' f' w') (hle : f ≤ f') :
    f' - f ≤ n' - n := by
  have := (h.between h' hle).2.length_le
  rwa [length_slice h'.le, length_slice h'.le_text] at this

/-- No escape stands between two cuts that are as far from each other as in the text. -/
theorem Cut.slice_eq (h : Cut source text n f w) (h' : Cut source text n' f' w') (hle : f ≤ f')
    (hlength : n' - n = f' - f) : Text.slice source n n' = Text.slice text f f' := by
  have hexpands := (h.between h' hle).2
  refine hexpands.eq_of_after (hexpands.length_eq_iff.mp ?_)
  rw [length_slice h'.le, length_slice h'.le_text, hlength]

-- ---------------------------------------------------------------------------
-- Places
-- ---------------------------------------------------------------------------

theorem ReadBehind.lt_length (h : ReadBehind text before t f) : f < text.length := by
  obtain ⟨c, rest, -, -, hdrop, -⟩ := h.starts
  by_contra hle
  rw [List.drop_eq_nil_of_le (not_lt.mp hle)] at hdrop
  cases hdrop

theorem ReadBehind.stop_le_length (h : ReadBehind text before t f) :
    f + t.text.length ≤ text.length := by
  have hlength := congrArg List.length h.text
  rw [List.length_take, List.length_drop, String.length_toList] at hlength
  have := h.lt_length
  omega

theorem ReadBehind.reads_behind (h : ReadBehind text before t f) :
    Reads text ((before ++ [t]).map lexeme) (text.drop (f + t.text.length)) := by
  rw [List.map_append]
  exact h.reads.trans h.reads_token

theorem ReadBehind.le (h : ReadBehind text before t f) (h' : ReadBehind text before' t' f')
    (hle : before.length ≤ before'.length) : f ≤ f' := by
  have := h.reads.le_of_startsToken h'.reads (by simpa using hle) h'.starts
  have := h'.lt_length
  simp only [List.length_drop] at *
  omega

theorem ReadBehind.stop_le (h : ReadBehind text before t f) (h' : ReadBehind text before' t' f')
    (hlt : before.length < before'.length) : f + t.text.length ≤ f' := by
  have := h.reads_behind.le_of_startsToken h'.reads (by simpa using Nat.succ_le_of_lt hlt) h'.starts
  have := h'.lt_length
  have := h.stop_le_length
  simp only [List.length_drop] at *
  omega

theorem ReadBehind.length_pos (h : ReadBehind text before t f) : 0 < t.text.length := by
  by_contra hzero
  have hnone : t.text.length = 0 := by omega
  have hread := h.reads_token
  rw [hnone, Nat.add_zero] at hread
  obtain ⟨vs, hvs, -⟩ := hread.linear (.done _) (le_refl _)
  simp at hvs

theorem ReadBehind.reads_gap (h : ReadBehind text before t f)
    (h' : ReadBehind text (before ++ [t]) t' f') :
    Reads (text.drop (f + t.text.length)) [] (text.drop f') := by
  have hle := h.stop_le h' (by simp)
  obtain ⟨vs, hvs, hreads⟩ := h.reads_behind.linear h'.reads (by simp only [List.length_drop]; omega)
  rwa [List.self_eq_append_right.mp hvs] at hreads

/-- A token with its offset in the source and in the text that the source stands for. The line in
front of the token is as long in both. -/
structure Placed (source text : List Char) (before : List Token) (t : Token) (n f : Nat) : Prop where
  read : ReadBehind text before t f
  start : ∃ w, Cut source text n f w
  stop : ∃ w, Cut source text (n + t.text.length) (f + t.text.length) w
  line : ∃ b g, Cut source text b g false ∧ Text.AtLineStart (source.take b) ∧ g ≤ f ∧ n + g = b + f

def EachInPlace (source : List Char) (toks : List Token) : Prop :=
  ∀ k t, toks[k]? = some t → ∃ n, (Source.ofTokens source toks).offset t = .ok n ∧
    StandsAt (toks.take k) t source n (n + t.text.length)

/-- Tokens stand in their places if no line break was missed and no escape stands on their lines or
on those behind. -/
theorem eachInPlace_of_free (hlines : KeepsLines source) (h : ofSource source = .ok toks)
    (hfree : ∀ k t, toks[k]? = some t → BreaksBeside (toks.take k) t ∧
      ∃ start, (Text.lineStarts source)[t.position.line - 1]? = some start ∧
        Free (source.drop start)) :
    EachInPlace source toks := by
  intro k t hk
  obtain ⟨hbeside, start, hstart, hfree⟩ := hfree k t hk
  obtain ⟨head, line, plain, token, rest, u, v, hcut⟩ := exists_cutAt hlines h hk
  rw [hcut.line_eq hbeside] at hstart
  obtain rfl := Option.some.inj (hcut.lineStart.symm.trans hstart)
  rw [hcut.source_eq, List.drop_left, ← List.append_assoc] at hfree
  obtain ⟨hline, htoken⟩ := hcut.free_iff.mp hfree.of_append
  exact ⟨_, hcut.offset_eq_iff.mpr ⟨hbeside, hline⟩, htoken ▸ hcut.stands⟩

theorem StandsAt.exists_cuts (h : StandsAt before t source n m) :
    ∃ text f u v, expand source = .ok text ∧ Cut source text n f u ∧
      Cut source text m (f + t.text.length) v ∧ ReadBehind text before t f := by
  cases h with
  | @mk a b c front rest u v w hfront htoken hrest hread =>
    have hstop := Cut.of_append (hfront.append htoken) hrest
    simp only [List.append_assoc, List.length_append, String.length_toList] at hstop
    exact ⟨_, front.length, u, v, expand_of_expands (hfront.append (htoken.append hrest)),
      .of_append hfront (htoken.append hrest), hstop, hread⟩

theorem CutAt.exists_cuts {head line plain token rest : List Char} {u v : Bool}
    (h : CutAt source before t head line plain token rest u v) :
    ∃ text g, expand source = .ok text ∧ Cut source text head.length g false ∧
      Cut source text (head.length + line.length) (g + plain.length) u ∧
      ReadBehind text before t (g + plain.length) := by
  obtain ⟨front, behind, w, hfront, hbehind, hread⟩ := h.reads
  have hrest := h.expandsToken.append hbehind
  have hstart := Cut.of_append (hfront.append h.expandsLine) hrest
  simp only [List.append_assoc, List.length_append] at hstart
  rw [h.source_eq]
  exact ⟨_, front.length, expand_of_expands (hfront.append (h.expandsLine.append hrest)),
    .of_append hfront (h.expandsLine.append hrest), hstart, hread⟩

theorem exists_placed (h : ofSource source = .ok toks) (hexpand : expand source = .ok text)
    (hk : toks[k]? = some t) (hoffset : (Source.ofTokens source toks).offset t = .ok n)
    (hstands : StandsAt (toks.take k) t source n (n + t.text.length)) :
    ∃ f, Placed source text (toks.take k) t n f := by
  obtain ⟨_, f, u, v, hexpand', hstart, hstop, hread⟩ := hstands.exists_cuts
  cases hexpand.symm.trans hexpand'
  obtain ⟨head, line, plain, token, rest, u', v', hcut⟩ := exists_cutAt ⟨text, hstart.expands⟩ h hk
  obtain ⟨_, g, hexpand', hline, hstart', hread'⟩ := hcut.exists_cuts
  cases hexpand.symm.trans hexpand'
  obtain rfl := le_antisymm (hread.le hread' (le_refl _)) (hread'.le hread (le_refl _))
  obtain rfl := hstart.eq hstart'
  have hlength := (hcut.offset_eq_iff.mp hoffset).2
  refine ⟨_, hread, ⟨u, hstart⟩, ⟨v, hstop⟩, head.length, g, hline, ?_, by omega, by omega⟩
  rw [hcut.source_eq, List.take_left]
  exact hcut.starts

theorem Placed.stop_le (h : Placed source text before t n f)
    (h' : Placed source text before' t' n' f') (hlt : before.length < before'.length) :
    n + t.text.length ≤ n' := by
  obtain ⟨w, hstop⟩ := h.stop
  obtain ⟨w', hstart⟩ := h'.start
  exact (hstop.between hstart (h.read.stop_le h'.read hlt)).1

theorem mem_slice_of_atLineStart {b : Nat} (h : Text.AtLineStart (source.take b)) (hlt : m < b)
    (hle : b ≤ n) (hn : n ≤ source.length) : '\n' ∈ Text.slice source m n := by
  have hlength : (source.take b).length = b := List.length_take_of_le (hle.trans hn)
  obtain hnil | ⟨u, hu⟩ := h
  · rw [hnil] at hlength
    cases hlength
    cases hlt
  · have hub : u.length + 1 = b := by rw [← hlength, hu, List.length_append]; rfl
    refine List.mem_of_getElem? (i := u.length - m) ?_
    rw [Text.slice, List.getElem?_drop, show m + (u.length - m) = u.length by omega,
      List.getElem?_take_of_lt (by omega), ← List.getElem?_take_of_lt (j := b) (by omega), hu]
    simp

theorem Placed.gap (h : Placed source text before t n f)
    (h' : Placed source text (before ++ [t]) t' n' f') :
    '\n' ∈ Text.slice source (n + t.text.length) n' ∨
      Text.slice source (n + t.text.length) n' = Text.slice text (f + t.text.length) f' := by
  have hle := h.read.stop_le h'.read (by simp)
  obtain ⟨w, hstop⟩ := h.stop
  obtain ⟨w', hstart⟩ := h'.start
  obtain ⟨b, g, hline, hbreak, hg, hlength⟩ := h'.line
  have hgap := hstop.length_le hstart hle
  by_cases hbehind : f + t.text.length < g
  · -- the line of the second starts behind the first
    have hlonger := hstop.length_le hline hbehind.le
    exact .inl (mem_slice_of_atLineStart hbreak (by omega) (hline.between hstart hg).1 hstart.le)
  · have hin := hline.length_le hstop (not_lt.mp hbehind)
    have hb := (hline.between hstop (not_lt.mp hbehind)).1
    have hn := (hstop.between hstart hle).1
    exact .inr (hstop.slice_eq hstart hle (by omega))

end CallerFirst.Java.Token
