import CallerFirst.Proofs.Yaml.Lexer
import CallerFirst.Yaml.Writer

/-!
# Cutting written lines

`writeEntries` writes a line for each key. Cut into tokens again, its lines give the keys and values
of the map and no others (`ofText_write`): a map opens at its first key, and is closed where a line
starts further to the left.
-/

namespace CallerFirst.Yaml

/-! ### Maps that are written as they are read -/

/-- A key that is written as it is read, and that is none of the keys behind it. -/
structure IsNewKey (key : String) (rest : List (Value × Value)) : Prop where
  word : IsWord key
  length : key.length ≤ keyReach
  fresh : ∀ pair ∈ rest, pair.1 ≠ .text key

/-- Pairs whose keys are different words, with scalars or such pairs as their values. -/
inductive IsRecord : List (Value × Value) → Prop
  | nil : IsRecord []
  | scalar {key : String} {v : Value} {rest : List (Value × Value)} (hkey : IsNewKey key rest)
      (hv : IsScalar v) (hrest : IsRecord rest) : IsRecord ((.text key, v) :: rest)
  | record {key : String} {inner rest : List (Value × Value)} (hkey : IsNewKey key rest)
      (hne : inner ≠ []) (hinner : IsRecord inner) (hrest : IsRecord rest) :
      IsRecord ((.text key, .map inner) :: rest)

/-! ### Lines and tokens -/

def linesText (depth : Nat) (entries : List (Value × Value)) : List Char :=
  (writeEntries depth entries).flatMap fun line => line.toList ++ ['\n']

theorem toList_write (entries : List (Value × Value)) :
    (write entries).toList = linesText 0 entries := by
  rw [write, String.toList_join, List.flatMap_map, linesText]
  simp

mutual
def valueTokens : Value → List Token
  | .map entries => .blockMap :: pairTokens entries ++ [.blockEnd]
  | v => [scalarToken v]
def pairTokens : List (Value × Value) → List Token
  | [] => []
  | (key, v) :: rest => .key :: scalarToken key :: .value :: (valueTokens v ++ pairTokens rest)
end

theorem valueTokens_scalar {v : Value} (hv : IsScalar v) : valueTokens v = [scalarToken v] := by
  cases hv <;> rfl

theorem toList_writeScalar_word {word : String} (h : IsWord word) :
    (writeScalar (.text word)).toList = word.toList := by
  simp [writeScalar, h.isEmpty]

section

variable {key : String} (hkey : IsWord key) (depth : Nat) (rest : List (Value × Value))
include hkey

theorem linesText_scalar {v : Value} (hv : IsScalar v) :
    linesText depth ((.text key, v) :: rest) =
      List.replicate depth ' ' ++ (key.toList ++ ':' :: ' ' :: ((writeScalar v).toList ++
        '\n' :: linesText depth rest)) := by
  have hword := toList_writeScalar_word hkey
  cases hv <;> simp [linesText, writeEntries, writePair, writePair.indent, hword]

theorem linesText_record (inner : List (Value × Value)) :
    linesText depth ((.text key, .map inner) :: rest) =
      List.replicate depth ' ' ++ (key.toList ++ ':' :: '\n' :: (linesText (depth + 2) inner ++
        linesText depth rest)) := by
  simp [linesText, writeEntries, writePair, writePair.indent, toList_writeScalar_word hkey]

end

/-! ### Tokens of lines -/

namespace Lexer

section

variable {p : Place} {tokens : List Token} {columns : List Nat} {mayKey : Bool} {v : Value}

theorem leads_key (tokens : List Token) {word : String} {depth : Nat} {opened : List Token}
    {inner : List Nat} {rest : List Char} (hword : IsWord word) (hlength : word.length ≤ keyReach)
    (hrest : spaceAhead rest = true) (hopens : Opens depth columns opened inner)
    (hp : p.rest = List.replicate depth ' ' ++ (word.toList ++ ':' :: rest))
    (hstart : p.column = 0) :
    ∃ q : Place, q.rest = rest ∧ depth ≤ q.column ∧
      Leads (inBlock p tokens columns true)
        (inBlock q (.value :: scalarToken (.text word) :: .key :: (opened ++ tokens)) inner
          false) := by
  let key : Place := ⟨word.toList ++ ':' :: rest, p.index + depth, p.line, depth⟩
  let colon : Place := ⟨':' :: rest, key.index + word.length, p.line, depth + word.length⟩
  have hkey : p.advance depth = key := by
    rw [Place.advance_spaces depth hp, hstart, Nat.zero_add]
  have hcolon : key.advance word.length = colon := by
    rw [← String.length_toList]
    exact Place.advance_inline (fun c hc => isInline_of_isWordChar (hword.isWordChar c hc)) rfl
  have hover : gapIsOver key.rest = true :=
    gapIsOver_scalarText (.word hword) hword.isWrittenPlain _
  have hgap : p.gap = (false, key) := by rw [Place.gap_spaces hover hp, hkey]
  have hnext := next_key tokens hword hrest (p := key) rfl hopens.head_le
  rw [hcolon] at hnext
  have hnext' := next_colon key (scalarToken (.text word)) tokens (p := colon) hrest rfl hopens
    (Nat.le_add_right _ _) rfl (Nat.add_le_add_left hlength _)
  have hstep : colon.step = ⟨rest, colon.index + 1, p.line, depth + word.length + 1⟩ :=
    Place.step_inline rfl (by decide)
  have hletter : 0 < word.toList.length := by
    obtain ⟨c, letters, hletters, -⟩ := hword.exists_cons
    simp [hletters]
  refine ⟨colon.step, by rw [hstep], by rw [hstep]; show depth ≤ depth + _ + 1; omega, ?_⟩
  refine (Leads.of_skipGap (skipGap_congr hgap (Place.gap_over hover) rfl) ?_).trans
    ((Leads.of_next hnext rfl ?_).trans (Leads.of_next hnext' rfl ?_))
  · show (word.toList ++ ':' :: rest).length ≤ p.rest.length
    simp [hp]
  · show (':' :: rest).length < (word.toList ++ ':' :: rest).length
    rw [List.length_append]
    omega
  · show colon.step.rest.length < (':' :: rest).length
    rw [hstep]
    simp

section

variable {depth n : Nat} {outer : List Nat} {content : List Char}
  (hcontent : aheadIs Char.isAlpha content = true)
include hcontent

theorem leads_plain (hv : IsScalar v) (hplain : isWrittenPlain v = true) (hn : n ≤ depth)
    (hp : p.rest = scalarText v ++ '\n' :: (List.replicate n ' ' ++ content))
    (hcolumn : depth ≤ p.column) :
    Leads (inBlock p tokens (depth :: outer) false)
      (inBlock (p.advance (scalarText v).length).step (scalarToken v :: tokens) (depth :: outer)
        true) := by
  have hover := gapIsOver_of_isAlpha hcontent
  have hline := congrArg Place.rest
    (Place.advance_line (fun c hc => isInline_of_isWordChar (hv.isWordChar c hc)) hp)
  have hstop := congrArg Place.rest (Place.advance_spaces n hline)
  have hfuel : p.rest.length = (scalarText v).length + (n + content.length) + 1 := by
    rw [hp]
    simp [Nat.add_assoc]
  have hread : readPlain false (depth + 1) p =
      .ok (scalarToken v, true, (p.advance (scalarText v).length).step.advance n) := by
    rw [readPlain, hfuel, plainText_line hv.isWordChar hcontent (Nat.lt_succ_of_le hn) hp,
      scalarToken, hplain]
  have hnext : (inBlock p tokens (depth :: outer) false).next = _ :=
    next_plain hv hplain hp (by simpa using hcolumn)
  rw [node_eq rfl hread] at hnext
  refine Leads.of_next hnext (skipGap_congr (Place.gap_over (hstop ▸ hover))
    (Place.gap_spaces hover hline) rfl) ?_
  show (p.advance (scalarText v).length).step.rest.length < p.rest.length
  rw [hline, hfuel, List.length_append, List.length_replicate]
  omega

omit hcontent in
theorem isInline_quotes : ∀ c ∈ ['\'', '\''], isInline c = true :=
  List.all_eq_true.1 rfl

theorem leads_quotes (hp : p.rest = '\'' :: '\'' :: '\n' :: (List.replicate n ' ' ++ content))
    (hcolumn : depth ≤ p.column) :
    Leads (inBlock p tokens (depth :: outer) false)
      (inBlock (p.advance 2).step (scalarToken (.text "") :: tokens) (depth :: outer) true) := by
  have hover := gapIsOver_of_isAlpha hcontent
  have hbehind : (p.advance 2).rest = '\n' :: (List.replicate n ' ' ++ content) :=
    congrArg Place.rest (Place.advance_inline isInline_quotes hp)
  have hline : (p.advance 2).step.rest = List.replicate n ' ' ++ content := by
    rw [Place.step_break hbehind]
  have hread : readQuoted singleQuoted p = .ok (scalarToken (.text ""), false, p.advance 2) := by
    have hquote := Place.step_inline hp (by decide)
    rw [readQuoted, Place.advance, Place.advance, hquote, hp]
    rfl
  have hgap := skipGap_self (l := inBlock p tokens (depth :: outer) false)
    (show gapIsOver p.rest = true by rw [hp]; rfl) rfl (by simp [inBlock])
    (by simpa [inBlock] using hcolumn)
  have htoken (rest : List Char) (hp : p.rest = '\'' :: '\'' :: '\n' :: rest) :
      (inBlock p tokens (depth :: outer) false).tokenAt '\'' ('\'' :: '\n' :: rest) =
        (inBlock p tokens (depth :: outer) false).node (readQuoted singleQuoted) := by
    simp [tokenAt, Place.atMark, markAhead, inBlock, hp]
  have hnext := next_eq hgap hp
  rw [htoken _ hp, node_eq rfl hread] at hnext
  refine Leads.of_next hnext (skipGap_congr (Place.gap_break hover hbehind)
    (Place.gap_spaces hover hline) rfl) ?_
  show (p.advance 2).step.rest.length < p.rest.length
  rw [hline, hp]
  simp only [List.length_cons]
  omega

theorem leads_scalar (tokens : List Token) (outer : List Nat) (hv : IsScalar v) (hn : n ≤ depth)
    (hp : p.rest = ' ' :: ((writeScalar v).toList ++ '\n' :: (List.replicate n ' ' ++ content)))
    (hcolumn : depth ≤ p.column) :
    ∃ q : Place, q.rest = List.replicate n ' ' ++ content ∧ q.column = 0 ∧
      Leads (inBlock p tokens (depth :: outer) false)
        (inBlock q (scalarToken v :: tokens) (depth :: outer) true) := by
  have hplace := Place.step_inline hp (by decide)
  have hstep := congrArg Place.rest hplace
  have hcolumn' : depth ≤ p.step.column := by
    rw [hplace]
    exact Nat.le_succ_of_le hcolumn
  have hspace (hover : gapIsOver p.step.rest = true) :
      Leads (inBlock p tokens (depth :: outer) false)
        (inBlock p.step tokens (depth :: outer) false) := by
    have hone : p.rest = List.replicate 1 ' ' ++ p.step.rest := by rw [hp, hstep]; rfl
    refine Leads.of_skipGap
      (skipGap_congr (Place.gap_spaces hover hone) (Place.gap_over hover) rfl) ?_
    show p.step.rest.length ≤ p.rest.length
    rw [hone]
    simp
  rcases hv.toList_writeScalar with ⟨hplain, htext⟩ | rfl
  · rw [htext] at hstep
    have hline := Place.advance_line (fun c hc => isInline_of_isWordChar (hv.isWordChar c hc)) hstep
    exact ⟨_, congrArg Place.rest hline, congrArg Place.column hline,
      (hspace (hstep ▸ gapIsOver_scalarText hv hplain _)).trans
        (leads_plain hcontent hv hplain hn hstep hcolumn')⟩
  · have hline := Place.advance_line isInline_quotes hstep
    exact ⟨_, congrArg Place.rest hline, congrArg Place.column hline,
      (hspace (by rw [hstep]; rfl)).trans (leads_quotes hcontent hstep hcolumn')⟩

theorem leads_break (tokens : List Token) (columns : List Nat) (mayKey : Bool)
    (hp : p.rest = '\n' :: (List.replicate n ' ' ++ content)) :
    Leads (inBlock p tokens columns mayKey) (inBlock p.step tokens columns true) := by
  refine Leads.of_skipGap (skipGap_congr (Place.gap_break (gapIsOver_of_isAlpha hcontent) hp)
    (Place.gap_spaces (gapIsOver_of_isAlpha hcontent) ?_) (by simp)) ?_
  · rw [Place.step_break hp]
  · show p.step.rest.length ≤ p.rest.length
    rw [Place.step_break hp, hp]
    simp

end

/-! ### Maps -/

/-- A text is over, or goes on with a line that starts in a column up to `depth`. -/
def ContinuesWithin (depth : Nat) (text : List Char) : Prop :=
  ∃ n ≤ depth, ∃ content, aheadIs Char.isAlpha content = true ∧
    text = List.replicate n ' ' ++ content

theorem ContinuesWithin.mono {depth depth' : Nat} {text : List Char}
    (h : ContinuesWithin depth text) (hle : depth ≤ depth') : ContinuesWithin depth' text := by
  obtain ⟨n, hn, content⟩ := h
  exact ⟨n, hn.trans hle, content⟩

theorem continuesWithin_word (depth : Nat) {word : String} (hword : IsWord word)
    (rest : List Char) :
    ContinuesWithin depth (List.replicate depth ' ' ++ (word.toList ++ rest)) := by
  obtain ⟨c, letters, hletters, hc⟩ := hword.exists_cons
  exact ⟨depth, Nat.le_refl _, _, by rw [hletters]; exact hc, rfl⟩

theorem continuesWithin_lines {depth : Nat} {entries : List (Value × Value)} (h : IsRecord entries)
    {behind : List Char} (hbehind : ContinuesWithin depth behind) :
    ContinuesWithin depth (linesText depth entries ++ behind) := by
  cases h with
  | nil => exact hbehind
  | scalar hkey hv =>
    rw [linesText_scalar hkey.word depth _ hv, List.append_assoc, List.append_assoc]
    exact continuesWithin_word depth hkey.word _
  | record hkey =>
    rw [linesText_record hkey.word depth, List.append_assoc, List.append_assoc]
    exact continuesWithin_word depth hkey.word _

theorem leads_close (tokens : List Token) (columns : List Nat) {depth inner : Nat}
    (hinner : depth < inner) (h : ContinuesWithin depth p.rest) (hstart : p.column = 0) :
    Leads (inBlock p tokens (inner :: columns) true)
      (inBlock p (.blockEnd :: tokens) columns true) := by
  obtain ⟨n, hn, content, hcontent, hp⟩ := h
  have hgap := Place.gap_spaces (gapIsOver_of_isAlpha hcontent) hp
  have hcolumn : (p.advance n).column < inner := by
    rw [Place.advance_spaces n hp, hstart]
    show 0 + n < inner
    omega
  refine Leads.of_skipGap ?_ (Nat.le_refl _)
  have hcolumns (mayKey : Bool) :
      (inBlock (p.advance n) tokens (inner :: columns) mayKey).columns = inner :: columns := rfl
  rw [skipGap_inBlock hgap, skipGap_inBlock hgap, closeBehind_cons (hcolumns _) hcolumn rfl]
  rfl

/-- The lines of a map give the tokens of its pairs, behind the start of the map if it is not open
yet. The map stays open, as more of its lines may follow. -/
theorem leads_lines (tokens : List Token) (p : Place) {entries : List (Value × Value)}
    (h : IsRecord entries) {depth : Nat} {outer columns : List Nat} {opened : List Token}
    {behind : List Char}
    (hopens : Opens depth columns opened (depth :: outer)) (hne : entries = [] → opened = [])
    (hbehind : ContinuesWithin depth behind) (hp : p.rest = linesText depth entries ++ behind)
    (hstart : p.column = 0) :
    ∃ q : Place, q.rest = behind ∧ q.column = 0 ∧
      Leads (inBlock p tokens columns true)
        (inBlock q ((pairTokens entries).reverse ++ (opened ++ tokens)) (depth :: outer) true) := by
  induction h generalizing depth outer columns opened tokens p behind with
  | nil =>
    obtain rfl := hne rfl
    cases hopens
    exact ⟨p, hp, hstart, .refl _⟩
  | @scalar key v rest hkey hv hrest ih =>
    rw [linesText_scalar hkey.word depth rest hv] at hp
    simp only [List.append_assoc, List.cons_append] at hp
    obtain ⟨n, hn, content, hcontent, htext⟩ := continuesWithin_lines hrest hbehind
    let keyed : List Token := .value :: scalarToken (.text key) :: .key :: (opened ++ tokens)
    obtain ⟨q, hq, hcolumn, hkeyed⟩ :=
      leads_key tokens hkey.word hkey.length rfl hopens hp hstart
    obtain ⟨r, hr, hrstart, hvalued⟩ :=
      leads_scalar hcontent keyed outer hv hn (htext ▸ hq) hcolumn
    have hopen : Opens depth (depth :: outer) [] (depth :: outer) := .later
    obtain ⟨s, hs, hsstart, hdone⟩ :=
      ih (scalarToken v :: keyed) r hopen (fun _ => rfl) hbehind (htext ▸ hr) hrstart
    refine ⟨s, hs, hsstart, hkeyed.trans (hvalued.trans ?_)⟩
    simpa [pairTokens, valueTokens_scalar hv, keyed] using hdone
  | @record key inner rest hkey hneinner hinner hrest ihinner ih =>
    rw [linesText_record hkey.word depth rest] at hp
    simp only [List.append_assoc, List.cons_append] at hp
    have hrestbehind := continuesWithin_lines hrest hbehind
    have hinnerbehind := hrestbehind.mono (Nat.le_add_right depth 2)
    obtain ⟨n, -, content, hcontent, htext⟩ := continuesWithin_lines hinner hinnerbehind
    let keyed : List Token := .value :: scalarToken (.text key) :: .key :: (opened ++ tokens)
    obtain ⟨q, hq, -, hkeyed⟩ :=
      leads_key tokens hkey.word hkey.length rfl hopens hp hstart
    have hbreak : q.rest = '\n' :: (List.replicate n ' ' ++ content) := htext ▸ hq
    have hline := Place.step_break hbreak
    have hended := leads_break hcontent keyed (depth :: outer) false hbreak
    have hopensinner :
        Opens (depth + 2) (depth :: outer) [.blockMap] ((depth + 2) :: depth :: outer) :=
      .first (by simp)
    obtain ⟨r, hr, hrstart, hvalued⟩ :=
      ihinner keyed q.step hopensinner (fun h => absurd h hneinner) hinnerbehind
        ((congrArg Place.rest hline).trans htext.symm) (congrArg Place.column hline)
    -- the inner map is still open, as its lines cannot tell that they were the last ones
    let valued : List Token := (pairTokens inner).reverse ++ ([.blockMap] ++ keyed)
    have hclosed := leads_close valued (depth :: outer) (Nat.lt_add_of_pos_right Nat.two_pos)
      (hr ▸ hrestbehind) hrstart
    have hopen : Opens depth (depth :: outer) [] (depth :: outer) := .later
    obtain ⟨s, hs, hsstart, hdone⟩ :=
      ih (.blockEnd :: valued) r hopen (fun _ => rfl) hbehind hr hrstart
    refine ⟨s, hs, hsstart, hkeyed.trans (hended.trans (hvalued.trans (hclosed.trans ?_)))⟩
    simpa [pairTokens, valueTokens, keyed, valued] using hdone

theorem run_end (hp : p.rest = []) (fuel : Nat) :
    run (fuel + 1) (inBlock p tokens [0] true) =
      { tokens := (.streamEnd :: .blockEnd :: tokens).reverse } := by
  have hgap := skipGap_self (l := inBlock p tokens [0] true)
    (show gapIsOver p.rest = true by rw [hp]; rfl) rfl (by simp [inBlock]) (by simp [inBlock])
  have hnext : (inBlock p tokens [0] true).next =
      .ok (inBlock p (.streamEnd :: .blockEnd :: tokens) [] true, true) := by
    have hover : (inBlock p tokens [0] true).place.rest = [] := hp
    rw [next, hgap]
    simp only [ok_bind, hover]
    rfl
  rw [run, hnext]
  rfl

end

end Lexer

theorem ofText_write {entries : List (Value × Value)} (h : IsRecord entries) (hne : entries ≠ []) :
    Tokens.ofText (write entries).toList =
      { tokens := .blockMap :: (pairTokens entries ++ [.blockEnd, .streamEnd]) } := by
  rw [toList_write]
  have hover : Lexer.ContinuesWithin 0 [] := ⟨0, Nat.le_refl 0, [], rfl, rfl⟩
  have hmark : (linesText 0 entries).head? ≠ some byteOrderMark := by
    obtain ⟨n, hn, content, hcontent, htext⟩ := Lexer.continuesWithin_lines h hover
    obtain rfl := Nat.le_zero.1 hn
    rw [List.append_nil] at htext
    rw [htext]
    cases content with
    | nil => simp
    | cons c rest =>
      have hc : c.isAlpha = true := hcontent
      simpa using ne_of_isAlpha hc (by decide)
  have hopens : Lexer.Opens 0 [] [.blockMap] [0] := .first (by simp)
  obtain ⟨q, hq, -, n, hn, hrun⟩ := Lexer.leads_lines [] { rest := linesText 0 entries } h hopens
    (fun h => absurd h hne) hover (List.append_nil _).symm rfl
  have hend := hrun ((linesText 0 entries).length - n) _ (Lexer.run_end hq _)
  have hfuel : n + ((linesText 0 entries).length - n) = (linesText 0 entries).length := by
    have : n ≤ (linesText 0 entries).length := (Nat.le_add_right _ _).trans hn
    omega
  rw [hfuel] at hend
  rw [Tokens.ofText]
  simp only [beq_iff_eq, if_neg hmark]
  refine Eq.trans hend ?_
  simp

end CallerFirst.Yaml
