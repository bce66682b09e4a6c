import CallerFirst.Proofs.Yaml.Scalars
import CallerFirst.Yaml.Text

/-!
# Places behind words and gaps

Where the place is behind characters of one line, behind the spaces that a line starts with, and
behind a scalar that is written plain or as two quotes.
-/

namespace CallerFirst.Yaml

/-! ### Characters -/

/-- A character that takes a column. -/
def isInline (c : Char) : Bool :=
  !isBreak c && c != byteOrderMark

theorem ne_of_isWordChar {c d : Char} (hc : isWordChar c = true) (hd : isWordChar d = false) :
    c ≠ d := by
  rintro rfl
  simp [hc] at hd

theorem isSpace_of_isWordChar {c : Char} (h : isWordChar c = true) : isSpace c = false := by
  have hne (d : Char) (hd : isWordChar d = false := by decide) : (c == d) = false :=
    beq_false_of_ne (ne_of_isWordChar h hd)
  simp only [isSpace, isBreak, hne ' ', hne '\t', hne '\n', hne '\x85', hne '\u2028',
    hne '\u2029', Bool.or_self]

theorem isInline_of_isWordChar {c : Char} (h : isWordChar c = true) : isInline c = true := by
  have hspace := isSpace_of_isWordChar h
  have hmark : c ≠ byteOrderMark := ne_of_isWordChar h (by decide)
  simp_all [isInline, isSpace]

theorem IsScalar.isWordChar {v : Value} (h : IsScalar v) :
    ∀ c ∈ scalarText v, isWordChar c = true := by
  cases h with
  | bool b => exact List.all_eq_true.1 (by cases b <;> decide)
  | int =>
    intro c hc
    rcases mem_toString hc with rfl | hc
    · decide
    · simp [Yaml.isWordChar, Char.isAlphanum, hc]
  | word h => exact h.isWordChar
  | empty => simp

/-! ### Places -/

namespace Place

theorem step_inline {p : Place} {c : Char} {rest : List Char} (h : p.rest = c :: rest)
    (hc : isInline c = true) : p.step = ⟨rest, p.index + 1, p.line, p.column + 1⟩ := by
  obtain ⟨hbreak, hmark⟩ := by simpa [isInline] using hc
  rw [step, h]
  simp [hbreak, hmark]

theorem step_break {p : Place} {rest : List Char} (h : p.rest = '\n' :: rest) :
    p.step = ⟨rest, p.index + 1, p.line + 1, 0⟩ := by
  rw [step, h]
  rfl

theorem advance_inline {text rest : List Char} (htext : ∀ c ∈ text, isInline c = true) {p : Place}
    (h : p.rest = text ++ rest) :
    p.advance text.length = ⟨rest, p.index + text.length, p.line, p.column + text.length⟩ := by
  induction text generalizing p with
  | nil =>
    subst h
    rfl
  | cons c text ih =>
    rw [List.length_cons, advance, step_inline h (htext c List.mem_cons_self),
      ih (fun d hd => htext d (List.mem_cons_of_mem c hd)) rfl]
    simp [Nat.add_assoc, Nat.add_comm 1]

theorem advance_spaces (n : Nat) {rest : List Char} {p : Place}
    (h : p.rest = List.replicate n ' ' ++ rest) :
    p.advance n = ⟨rest, p.index + n, p.line, p.column + n⟩ := by
  have hspaces : ∀ c ∈ List.replicate n ' ', isInline c = true := by
    simpa using fun _ => by decide
  simpa using advance_inline hspaces h

theorem advance_line {text rest : List Char} (htext : ∀ c ∈ text, isInline c = true) {p : Place}
    (h : p.rest = text ++ '\n' :: rest) :
    (p.advance text.length).step = ⟨rest, p.index + text.length + 1, p.line + 1, 0⟩ := by
  rw [advance_inline htext h, step_break rfl]

end Place

def gapIsOver (rest : List Char) : Bool :=
  aheadIs (fun c => !isBreak c && c != ' ' && c != '#') rest

theorem gapIsOver_cons {c : Char} (hc : isWordChar c = true) (hmark : c ≠ '#') (rest : List Char) :
    gapIsOver (c :: rest) = true := by
  obtain ⟨⟨hspace, -⟩, hbreak⟩ := by simpa [isSpace] using isSpace_of_isWordChar hc
  simp [gapIsOver, aheadIs, hbreak, hspace, hmark]

theorem skipGap_over (ended : Bool) {rest : List Char} (h : gapIsOver rest = true) (p : Place) :
    skipGap false ended rest p = (ended, p) := by
  cases rest with
  | nil => rfl
  | cons c rest =>
    obtain ⟨⟨hbreak, hspace⟩, hmark⟩ := by simpa [gapIsOver, aheadIs] using h
    simp [skipGap, hbreak, hspace, hmark]

theorem skipGap_spaces (ended : Bool) (n : Nat) {rest : List Char} (h : gapIsOver rest = true)
    (p : Place) :
    skipGap false ended (List.replicate n ' ' ++ rest) p = (ended, p.advance n) := by
  induction n generalizing p with
  | zero => exact skipGap_over ended h p
  | succ n ih =>
    rw [List.replicate_succ, List.cons_append, skipGap, if_neg (by decide), if_pos (by simp), ih]
    rfl

namespace Place

variable {p : Place} {rest : List Char} {n : Nat}

theorem gap_over (hover : gapIsOver p.rest = true) : p.gap = (false, p) :=
  skipGap_over false hover p

theorem gap_spaces (hover : gapIsOver rest = true) (hp : p.rest = List.replicate n ' ' ++ rest) :
    p.gap = (false, p.advance n) := by
  rw [gap, hp]
  exact skipGap_spaces false n hover p

theorem gap_break (hover : gapIsOver rest = true)
    (hp : p.rest = '\n' :: (List.replicate n ' ' ++ rest)) :
    p.gap = (true, p.step.advance n) := by
  rw [gap, hp, skipGap, if_pos (by decide)]
  exact skipGap_spaces true n hover p.step

end Place

/-! ### Line breaks -/

section

variable {content : List Char} (hcontent : aheadIs Char.isAlpha content = true)
include hcontent

theorem gapIsOver_of_isAlpha : gapIsOver content = true := by
  cases content with
  | nil => rfl
  | cons c rest =>
    have hc : c.isAlpha = true := hcontent
    exact gapIsOver_cons (by simp [isWordChar, Char.isAlphanum, hc])
      (ne_of_isAlpha hc (by decide)) rest

theorem documentAhead_spaces (n : Nat) :
    documentAhead (List.replicate n ' ' ++ content) = false := by
  have hmark (mark : Char) (hspace : mark ≠ ' ') (hletter : mark.isAlpha = false) :
      markAhead mark (List.replicate n ' ' ++ content) = false := by
    cases n with
    | zero =>
      cases content with
      | nil => simp [markAhead]
      | cons c rest =>
        have hc : c.isAlpha = true := hcontent
        simp [markAhead, (ne_of_isAlpha hc hletter).symm]
    | succ n => simp [markAhead, List.replicate_succ, hspace]
  rw [documentAhead, hmark '-' (by decide) (by decide), hmark '.' (by decide) (by decide)]
  rfl

theorem skipFold_spaces (n : Nat) (p : Place) :
    skipFold (· == ' ') (List.replicate n ' ' ++ content) p = ⟨[], false, p.advance n⟩ := by
  induction n generalizing p with
  | zero =>
    cases content with
    | nil => rfl
    | cons c rest =>
      obtain ⟨⟨hbreak, hspace⟩, -⟩ := by
        simpa [gapIsOver, aheadIs] using gapIsOver_of_isAlpha hcontent
      simp [skipFold, hbreak, hspace, Place.advance]
  | succ n ih =>
    rw [List.replicate_succ, List.cons_append, skipFold, if_neg (by decide), if_pos (by decide), ih]
    rfl

theorem plainGap_break {n : Nat} {p : Place}
    (hp : p.rest = '\n' :: (List.replicate n ' ' ++ content)) :
    plainGap p = { text := [' '], ended := true, stop := p.step.advance n } := by
  have hspaces : p.spaces = p := by
    rw [Place.spaces, Place.skip, hp]
    rfl
  have hfold : p.fold (· == ' ') = ⟨['\n'], false, p.step.advance n⟩ := by
    rw [Place.fold, hp, skipFold, if_pos (by decide), documentAhead_spaces hcontent,
      skipFold_spaces hcontent]
    rfl
  rw [plainGap, hspaces, hfold, hp]
  rfl

end

/-! ### Scalars -/

section

variable {word rest : List Char} {p : Place}

theorem chunkLength_word (hword : ∀ c ∈ word, isWordChar c = true) (rest : List Char) :
    chunkLength false (word ++ rest) = word.length + chunkLength false rest := by
  induction word with
  | nil => simp
  | cons c word ih =>
    have hc := hword c List.mem_cons_self
    have hcolon : c ≠ ':' := ne_of_isWordChar hc (by decide)
    rw [List.cons_append, chunkLength,
      if_neg (by simp [endsPlain, isSpace_of_isWordChar hc, hcolon]),
      ih fun d hd => hword d (List.mem_cons_of_mem c hd), List.length_cons]
    omega

theorem plainText_key (hword : ∀ c ∈ word, isWordChar c = true) (hrest : spaceAhead rest = true)
    (hp : p.rest = word ++ ':' :: rest) (floor fuel : Nat) :
    plainText false floor (fuel + 1) p = { text := word, stop := p.advance word.length } := by
  have hlength : chunkLength false p.rest = word.length := by
    rw [hp, chunkLength_word hword]
    simp [chunkLength, endsPlain, hrest]
  have hstop := Place.advance_inline (fun c hc => isInline_of_isWordChar (hword c hc)) hp
  have hgap : plainGap (p.advance word.length) = { text := [], stop := p.advance word.length } := by
    rw [hstop]
    rfl
  rw [plainText, hlength, hgap]
  simp [hp]

theorem plainText_line (hword : ∀ c ∈ word, isWordChar c = true) {n floor : Nat}
    (hcontent : aheadIs Char.isAlpha rest = true) (hfloor : n < floor)
    (hp : p.rest = word ++ '\n' :: (List.replicate n ' ' ++ rest)) (fuel : Nat) :
    plainText false floor (fuel + 1) p =
      { text := word, ended := true, stop := ((p.advance word.length).step).advance n } := by
  have hlength : chunkLength false p.rest = word.length := by
    rw [hp, chunkLength_word hword]
    rfl
  have hstop := Place.advance_inline (fun c hc => isInline_of_isWordChar (hword c hc)) hp
  have hcolumn : ((p.advance word.length).step.advance n).column = n := by
    rw [hstop, Place.step_break rfl, Place.advance_spaces n rfl, Nat.zero_add]
  have hgap := plainGap_break hcontent (congrArg Place.rest hstop)
  rw [plainText, hlength, hgap]
  simp [hp, hcolumn, hfloor]

end

end CallerFirst.Yaml
