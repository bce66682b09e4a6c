import CallerFirst.Proofs.Java.Token.Piece

/-!
# Reading a text piece by piece

`Reads a ts b`: reading `a` from the front gives `ts` and comes to `b`, between two pieces. `Scans` is
what the scanner does, without its fuel (`scan_iff_scans`). So a text is cut into tokens if it can be
read to its end (`scan_iff_reads`), and there is one way to read it (`Reads.linear`).
-/

namespace CallerFirst.Java.Token

variable {a b u v w y z : List Char} {c x : Char} {i j k n : Nat}

/-- A token without its place. -/
abbrev Lexeme := TokenKind × String

def lexeme (t : Token) : Lexeme :=
  (t.kind, t.text)

def semicolon : Lexeme :=
  (.separator, ";")

def Piece.lexemes (text : List Char) : Piece → List Lexeme
  | gap _ => []
  | token kind n => [(kind, String.ofList (text.take n))]

/-- Blanks are passed one by one, so that a text may be cut between any two of them. -/
inductive Reads : List Char → List Lexeme → List Char → Prop
  | done (a : List Char) : Reads a [] a
  | blank {c a ts b} (hc : Text.isBlank c = true) : Reads a ts b → Reads (c :: a) ts b
  | piece {c a p ts b} (hc : Text.isBlank c = false) (hp : pieceAt 0 c a = .ok p) :
      Reads ((c :: a).drop p.length) ts b → Reads (c :: a) (p.lexemes (c :: a) ++ ts) b

variable {ts us : List Lexeme}

theorem Reads.trans (h : Reads a ts b) (h' : Reads b us y) : Reads a (ts ++ us) y := by
  induction h with
  | done => exact h'
  | blank hc _ ih => exact .blank hc (ih h')
  | piece hc hp _ ih =>
    rw [List.append_assoc]
    exact .piece hc hp (ih h')

theorem Reads.suffix (h : Reads a ts b) : b <:+ a := by
  induction h with
  | done => exact List.suffix_refl _
  | blank _ _ ih => exact ih.trans (List.suffix_cons _ _)
  | piece _ _ _ ih => exact ih.trans (List.drop_suffix _ _)

theorem Reads.length_le (h : Reads a ts b) : b.length ≤ a.length :=
  h.suffix.length_le

theorem length_drop_lt (hp : pieceAt i c a = .ok p) :
    ((c :: a).drop p.length).length < (c :: a).length := by
  have := one_le_length hp
  simp only [List.length_drop, List.length_cons]
  omega

theorem Reads.first_step (h : Reads (c :: a) ts b) (hb : b.length ≤ a.length) :
    (Text.isBlank c = true ∧ Reads a ts b) ∨
      ∃ p us, Text.isBlank c = false ∧ pieceAt 0 c a = .ok p ∧ ts = p.lexemes (c :: a) ++ us ∧
        Reads ((c :: a).drop p.length) us b := by
  generalize hw : c :: a = w at h
  cases h with
  | done =>
    subst hw
    exact absurd hb (Nat.not_succ_le_self _)
  | blank hc h =>
    cases hw
    exact .inl ⟨hc, h⟩
  | piece hc hp h =>
    cases hw
    exact .inr ⟨_, _, hc, hp, rfl, h⟩

theorem Reads.linear (h : Reads a ts b) (h' : Reads a us y) (hle : y.length ≤ b.length) :
    ∃ vs, us = ts ++ vs ∧ Reads b vs y := by
  induction h generalizing us with
  | done => exact ⟨us, rfl, h'⟩
  | blank hc hr ih =>
    cases h' with
    | done =>
      have := hr.length_le
      simp only [List.length_cons] at hle
      omega
    | blank _ h' => exact ih h' hle
    | piece hc' => simp [hc] at hc'
  | piece hc hp hr ih =>
    cases h' with
    | done =>
      have h₁ := hr.length_le
      have h₂ := length_drop_lt hp
      omega
    | blank hc' => simp [hc] at hc'
    | piece _ hp' h' =>
      cases hp.symm.trans hp'
      obtain ⟨vs, rfl, hvs⟩ := ih h' hle
      exact ⟨vs, (List.append_assoc ..).symm, hvs⟩

def StartsToken (a : List Char) : Prop :=
  ∃ c rest kind length, a = c :: rest ∧ pieceAt 0 c rest = .ok (.token kind length)

/-- A place with no more tokens in front of it than a place where a token starts is not behind it. -/
theorem Reads.le_of_startsToken (h : Reads a ts b) (h' : Reads a us y) (hts : ts.length ≤ us.length)
    (hy : StartsToken y) : y.length ≤ b.length := by
  by_contra hlt
  obtain ⟨vs, rfl, hvs⟩ := h'.linear h (by omega)
  obtain rfl : vs = [] := by
    rw [List.length_append] at hts
    exact List.length_eq_zero_iff.mp (by omega)
  obtain ⟨c, rest, kind, length, rfl, hp⟩ := hy
  obtain ⟨hc, -⟩ | ⟨p, us, -, hp', hus, -⟩ := hvs.first_step (by simp only [List.length_cons] at hlt; omega)
  · rw [pieceAt, if_pos hc] at hp
    cases hp
  · cases hp.symm.trans hp'
    cases hus

theorem reads_blanks (hw : ∀ c ∈ w, Text.isBlank c = true) (b : List Char) :
    Reads (w ++ b) [] b := by
  induction w with
  | nil => exact .done b
  | cons c w ih =>
    exact .blank (hw c List.mem_cons_self) (ih fun d hd => hw d (.tail _ hd))

theorem reads_piece (h : pieceAt i c a = .ok p) :
    Reads (c :: a) (p.lexemes (c :: a)) ((c :: a).drop p.length) := by
  cases hc : Text.isBlank c with
  | false =>
    have := Reads.piece hc (pieceAt_index h 0) (.done _)
    rwa [List.append_nil] at this
  | true =>
    rw [pieceAt, if_pos hc] at h
    cases h
    have hblanks : Reads ((c :: a.takeWhile Text.isBlank) ++ a.dropWhile Text.isBlank) []
        (a.dropWhile Text.isBlank) :=
      reads_blanks (fun d hd => (List.mem_cons.mp hd).elim (fun h => h ▸ hc) List.mem_takeWhile_imp) _
    have hdrop : (c :: a).drop (1 + (a.takeWhile Text.isBlank).length) = a.dropWhile Text.isBlank := by
      rw [Nat.add_comm, List.drop_succ_cons]
      exact (congrArg (List.drop _) List.takeWhile_append_dropWhile.symm).trans List.drop_left
    rw [List.cons_append, List.takeWhile_append_dropWhile, ← hdrop] at hblanks
    exact hblanks

-- ---------------------------------------------------------------------------
-- Tokens of a text
-- ---------------------------------------------------------------------------

inductive Scans : Scan → List Token → Prop
  | done {s : Scan} (hrest : s.rest = []) : Scans s []
  | gap {s : Scan} {c a n toks} (hrest : s.rest = c :: a)
    (hp : pieceAt s.index c a = .ok (.gap n)) (h : Scans (s.skip n) toks) : Scans s toks
  | token {s : Scan} {c a toks} {kind : TokenKind} {n} (hrest : s.rest = c :: a)
    (hp : pieceAt s.index c a = .ok (.token kind n)) (h : Scans (s.take n) toks) :
    Scans s (⟨kind, String.ofList ((c :: a).take n), s.position⟩ :: toks)

section Scans

variable {source : List Char} {s : Scan} {toks : List Token} {kind : TokenKind}

theorem length_skip_lt (hrest : s.rest = c :: a) (hp : pieceAt s.index c a = .ok (.gap k)) :
    (s.skip k).rest.length < s.rest.length := by
  have hlt := length_drop_lt hp
  simpa only [Scan.skip, hrest, Piece.length] using hlt

theorem length_take_lt (hrest : s.rest = c :: a)
    (hp : pieceAt s.index c a = .ok (.token kind k)) :
    (s.take k).rest.length < s.rest.length := by
  have hlt := length_drop_lt hp
  simpa only [Scan.take, hrest, Piece.length] using hlt

theorem scans_of_scanFrom (hn : s.rest.length ≤ n) (h : scanFrom source n s = .ok toks) :
    Scans s toks := by
  induction n generalizing s toks with
  | zero =>
    cases h
    exact .done (List.length_eq_zero_iff.mp (Nat.le_zero.mp hn))
  | succ n ih =>
    unfold scanFrom at h
    cases hrest : s.rest with
    | nil =>
      simp only [hrest] at h
      cases h
      exact .done hrest
    | cons c a =>
      simp only [hrest] at h
      cases hp : pieceAt s.index c a with
      | error fault => cases fault <;> simp [hp] at h
      | ok p =>
        cases p with
        | gap k =>
          have hlt := length_skip_lt hrest hp
          simp only [hp] at h
          exact .gap hrest hp (ih (by omega) h)
        | token kind k =>
          have hlt := length_take_lt hrest hp
          simp only [hp, bind_eq_ok] at h
          obtain ⟨rest, hscan, h⟩ := h
          cases h
          exact .token hrest hp (ih (by omega) hscan)

theorem Scans.scanFrom_eq (h : Scans s toks) (hn : s.rest.length ≤ n) :
    scanFrom source n s = .ok toks := by
  induction h generalizing n with
  | done hrest => cases n <;> simp [scanFrom, hrest]
  | gap hrest hp _ ih =>
    have hlt := length_skip_lt hrest hp
    cases n with
    | zero => omega
    | succ n =>
      simp only [scanFrom, hrest, hp]
      exact ih (by omega)
  | token hrest hp _ ih =>
    have hlt := length_take_lt hrest hp
    cases n with
    | zero => omega
    | succ n =>
      simp only [scanFrom, hrest, hp, ih (n := n) (by omega)]
      rfl

theorem scan_iff_scans : scan source = .ok toks ↔ Scans { rest := source } toks :=
  ⟨scans_of_scanFrom (le_refl _), fun h => h.scanFrom_eq (le_refl _)⟩

theorem Scans.reads (h : Scans s toks) : Reads s.rest (toks.map lexeme) [] := by
  induction h with
  | done hrest =>
    rw [hrest]
    exact .done []
  | gap hrest hp _ ih =>
    rw [hrest]
    simp only [Scan.skip, hrest] at ih
    exact (reads_piece hp).trans ih
  | token hrest hp _ ih =>
    rw [hrest]
    simp only [Scan.take, hrest] at ih
    exact (reads_piece hp).trans ih

theorem exists_scans (h : Reads s.rest ts []) : ∃ toks, Scans s toks ∧ toks.map lexeme = ts := by
  induction hn : s.rest.length using Nat.strong_induction_on generalizing s ts with
  | _ n ih =>
    cases hrest : s.rest with
    | nil =>
      rw [hrest] at h
      cases h
      exact ⟨[], .done hrest, rfl⟩
    | cons c a =>
      rw [hrest] at h
      obtain ⟨p, hp⟩ : ∃ p, pieceAt s.index c a = .ok p := by
        cases h with
        | blank hc => exact ⟨_, if_pos hc⟩
        | piece _ hp => exact ⟨_, pieceAt_index hp _⟩
      obtain ⟨us, rfl, hus⟩ := (reads_piece hp).linear h (Nat.zero_le _)
      cases p with
      | gap k =>
        have hskip : (s.skip k).rest = (c :: a).drop k := by simp only [Scan.skip, hrest]
        obtain ⟨toks, hscans, rfl⟩ := ih _ (hn ▸ length_skip_lt hrest hp) (hskip ▸ hus) rfl
        exact ⟨toks, .gap hrest hp hscans, rfl⟩
      | token kind k =>
        have htake : (s.take k).rest = (c :: a).drop k := by simp only [Scan.take, hrest]
        obtain ⟨toks, hscans, rfl⟩ := ih _ (hn ▸ length_take_lt hrest hp) (htake ▸ hus) rfl
        exact ⟨_, .token hrest hp hscans, rfl⟩

theorem scan_iff_reads :
    (∃ toks, scan source = .ok toks ∧ toks.map lexeme = ts) ↔ Reads source ts [] := by
  simp only [scan_iff_scans]
  constructor
  · rintro ⟨toks, h, rfl⟩
    exact h.reads
  · exact exists_scans (s := { rest := source })

end Scans

-- ---------------------------------------------------------------------------
-- What follows a text
-- ---------------------------------------------------------------------------

theorem Piece.lexemes_append {p : Piece} (hp : p.length ≤ w.length) (y : List Char) :
    p.lexemes (w ++ y) = p.lexemes w := by
  cases p with
  | gap => rfl
  | token kind n =>
    simp only [Piece.length] at hp
    simp only [Piece.lexemes, List.take_append_of_le_length hp]

theorem Reads.replace {b' : List Char} (hb : b ≠ []) (Q : Lexeme → Prop)
    (hlocal : ∀ c w p, Text.isBlank c = false → pieceAt 0 c (w ++ b) = .ok p →
      p.length ≤ 1 + w.length → (∀ t ∈ p.lexemes (c :: w), Q t) → pieceAt 0 c (w ++ b') = .ok p)
    (h : Reads (u ++ b) ts b) (hts : ∀ t ∈ ts, Q t) : Reads (u ++ b') ts b' := by
  generalize ha : u ++ b = a at h
  induction h generalizing u with
  | done =>
    obtain rfl : u = [] := by simpa using ha
    exact .done b'
  | @blank c a ts b hc hr ih =>
    cases u with
    | nil =>
      have := hr.length_le
      simp only [List.nil_append] at ha
      rw [ha] at this
      exact absurd this (Nat.not_succ_le_self _)
    | cons d u =>
      obtain ⟨rfl, rfl⟩ : d = c ∧ u ++ b = a := by simpa using ha
      exact .blank hc (ih hb hlocal hts rfl)
  | @piece c a p ts b hc hp hr ih =>
    have hlen := hr.length_le
    have hone := one_le_length hp
    have hpos : 0 < b.length := List.length_pos_iff.mpr hb
    cases u with
    | nil =>
      simp only [List.nil_append] at ha
      simp only [ha, List.length_drop, List.length_cons] at hlen
      omega
    | cons d u =>
      obtain ⟨rfl, rfl⟩ : d = c ∧ u ++ b = a := by simpa using ha
      have hle : p.length ≤ (d :: u).length := by
        simp only [List.length_drop, List.length_cons, List.length_append] at hlen ⊢
        omega
      rw [← List.cons_append, Piece.lexemes_append hle] at hts ⊢
      have hp' := hlocal d u p hc hp (by simpa [Nat.add_comm] using hle) fun t ht =>
        hts t (List.mem_append_left _ ht)
      rw [← Piece.lexemes_append hle b', List.cons_append]
      refine .piece hc hp' ?_
      rw [← List.cons_append, List.drop_append_of_le_length hle]
      refine ih hb hlocal (fun t ht => hts t (List.mem_append_right _ ht)) ?_
      rw [← List.cons_append, List.drop_append_of_le_length hle]

/-- Whatever follows the text, it is read to its end in the same way. -/
def Solid (a : List Char) (ts : List Lexeme) : Prop :=
  ∀ rest, Reads (a ++ rest) ts rest

theorem Solid.append (ha : Solid a ts) (hb : Solid b us) : Solid (a ++ b) (ts ++ us) := by
  intro rest
  rw [List.append_assoc]
  exact (ha (b ++ rest)).trans (hb rest)

theorem solid_nil : Solid [] [] :=
  fun rest => .done rest

theorem solid_blanks (hw : ∀ c ∈ w, Text.isBlank c = true) : Solid w [] :=
  reads_blanks hw

theorem solid_separator (hx : isStop x = true) : Solid [x] [(.separator, String.ofList [x])] :=
  fun rest => reads_piece (pieceAt_separator hx 0 rest)

theorem Reads.stop (hx : isStop x = true) (h : Reads (u ++ x :: y) ts (x :: y)) (z : List Char) :
    Reads (u ++ x :: z) ts (x :: z) :=
  h.replace (List.cons_ne_nil x y) (fun _ => True)
    (fun _ _ _ hc hp hlen _ => pieceAt_stop hx hc hp hlen 0 z) fun _ _ => trivial

theorem eq_of_lexeme_semicolon {kind : TokenKind} (hn : 1 ≤ n)
    (h : (kind, String.ofList ((c :: w).take n)) = semicolon) : c = ';' := by
  obtain ⟨m, rfl⟩ : ∃ m, n = m + 1 := ⟨n - 1, by omega⟩
  have htake := congrArg (String.toList ∘ Prod.snd) h
  simp only [Function.comp_apply, String.toList_ofList, List.take_succ_cons] at htake
  exact (List.cons.inj htake).1

/-- A text of blanks, comments and semicolons is solid, unless it is the end of a text. -/
theorem solid_of_semicolons (hb : b ≠ []) (h : Reads (a ++ b) (List.replicate k semicolon) b) :
    Solid a (List.replicate k semicolon) := by
  refine fun rest => h.replace hb (· = semicolon) ?_ fun t ht => (List.mem_replicate.mp ht).2
  intro c w p hc hp hlen hlexemes
  cases p with
  | gap n => exact pieceAt_comment hc hb hp hlen 0 rest
  | token kind n =>
    obtain rfl := eq_of_lexeme_semicolon (one_le_length hp) (hlexemes _ (List.mem_singleton_self _))
    rw [pieceAt_separator (by decide)] at hp ⊢
    exact hp

-- ---------------------------------------------------------------------------
-- Filler
-- ---------------------------------------------------------------------------

/-- Nothing is read of the text but semicolons. -/
def Filler (a : List Char) : Prop :=
  ∃ k, Solid a (List.replicate k semicolon)

theorem filler_of_reads (hb : b ≠ []) (h : Reads (a ++ b) (List.replicate k semicolon) b) :
    Filler a :=
  ⟨k, solid_of_semicolons hb h⟩

theorem Filler.append (ha : Filler a) (hb : Filler b) : Filler (a ++ b) := by
  obtain ⟨k, hk⟩ := ha
  obtain ⟨l, hl⟩ := hb
  refine ⟨k + l, ?_⟩
  rw [List.replicate_add]
  exact hk.append hl

theorem Filler.of_append (ha : Filler a) (hab : Filler (a ++ b)) : Filler b := by
  obtain ⟨k, hk⟩ := ha
  obtain ⟨l, hl⟩ := hab
  have hread := hl [';']
  rw [List.append_assoc] at hread
  obtain ⟨vs, hvs, hrest⟩ := (hk (b ++ [';'])).linear hread (by simp)
  obtain ⟨-, -, hvs⟩ := List.replicate_eq_append_iff.mp hvs
  rw [hvs] at hrest
  exact filler_of_reads (by simp) hrest

theorem filler_blanks (hw : ∀ c ∈ w, Text.isBlank c = true) : Filler w :=
  ⟨0, solid_blanks hw⟩

theorem filler_semicolon : Filler [';'] :=
  ⟨1, solid_separator (by decide)⟩

theorem Filler.head (h : Filler (c :: a)) : Text.isBlank c = true ∨ c = '/' ∨ c = ';' := by
  obtain ⟨k, hk⟩ := h
  obtain ⟨hc, -⟩ | ⟨p, us, hc, hp, hts, -⟩ := (hk [';']).first_step (by simp)
  · exact .inl hc
  · cases p with
    | gap n => exact .inr (.inl (pieceAt_gap hc hp).1)
    | token kind n =>
      have hmem : (kind, String.ofList ((c :: (a ++ [';'])).take n)) ∈ List.replicate k semicolon :=
        hts ▸ List.mem_cons_self
      exact .inr (.inr (eq_of_lexeme_semicolon (one_le_length hp) (List.mem_replicate.mp hmem).2))

-- ---------------------------------------------------------------------------
-- Line comments
-- ---------------------------------------------------------------------------

/-- Reading the text one comes to a line comment that goes on behind it. -/
def EndsInComment (a : List Char) : Prop :=
  ∃ ts body, '\n' ∉ body ∧ Reads a ts ('/' :: '/' :: body)

def EndsComment (a : List Char) : Prop :=
  ∃ u v, a = u ++ '\n' :: v ∧ '\n' ∉ u ∧ Filler v

theorem lineLength_of_break (hu : '\n' ∉ u) (v : List Char) :
    lineLength (u ++ '\n' :: v) = 2 + u.length + 1 := by
  have htake : (u ++ '\n' :: v).takeWhile (· != '\n') = u := by
    rw [takeWhile_stop (by simp), List.takeWhile_eq_self_iff]
    intro c hc
    simpa using fun (heq : c = '\n') => hu (heq ▸ hc)
  rw [lineLength, htake]
  simp only [List.length_append, List.length_cons]
  omega

theorem reads_line (hu : '\n' ∉ u) (v : List Char) :
    Reads ('/' :: '/' :: (u ++ '\n' :: v)) [] v := by
  have h := reads_piece (pieceAt_line 0 (u ++ '\n' :: v))
  have hdrop : ('/' :: '/' :: (u ++ '\n' :: v)).drop (2 + u.length + 1) = v := by
    rw [Nat.add_assoc, Nat.add_comm, List.drop_succ_cons, List.drop_succ_cons]
    simp
  simpa only [Piece.lexemes, Piece.length, lineLength_of_break hu, hdrop] using h

theorem reads_to_end (hu : '\n' ∉ u) : Reads ('/' :: '/' :: u) [] [] := by
  have h := reads_piece (pieceAt_line 0 u)
  have hlong : ('/' :: '/' :: u).length ≤ lineLength u := by
    rw [lineLength, List.takeWhile_eq_self_iff.mpr fun c hc => by
      simpa using fun (heq : c = '\n') => hu (heq ▸ hc)]
    simp only [List.length_cons]
    omega
  simpa only [Piece.lexemes, Piece.length, List.drop_eq_nil_of_le hlong] using h

theorem not_reads_line (hu : '\n' ∉ u) (hb : b ≠ []) : ¬Reads ('/' :: '/' :: (u ++ b)) ts b := by
  have hpos : 0 < b.length := List.length_pos_iff.mpr hb
  have hlong : 2 + u.length + 1 ≤ lineLength (u ++ b) := by
    rw [lineLength, List.takeWhile_append_of_pos fun c hc => by
      simpa using fun (heq : c = '\n') => hu (heq ▸ hc)]
    simp only [List.length_append]
    omega
  intro h
  obtain ⟨hc, -⟩ | ⟨p, us, -, hp, -, hr⟩ := h.first_step (by
    simp only [List.length_cons, List.length_append]
    omega)
  · simp [show Text.isBlank '/' = false by decide] at hc
  · cases (pieceAt_line 0 (u ++ b)).symm.trans hp
    have := hr.length_le
    simp only [Piece.length, List.length_drop, List.length_cons, List.length_append] at this
    omega

theorem reads_comment_iff (hu : '\n' ∉ u) (hb : b ≠ []) :
    (∃ k, Reads ('/' :: '/' :: (u ++ (a ++ b))) (List.replicate k semicolon) b) ↔ EndsComment a := by
  constructor
  · rintro ⟨k, h⟩
    by_cases ha : '\n' ∈ a
    · obtain ⟨v, w, rfl, hv⟩ := List.eq_append_cons_of_mem ha
      have hline := reads_line (u := u ++ v) (by simp [hu, hv]) (w ++ b)
      simp only [List.append_assoc, List.cons_append] at h hline
      obtain ⟨vs, rfl, hvs⟩ := hline.linear h (by simp)
      exact ⟨v, w, rfl, hv, filler_of_reads hb hvs⟩
    · refine absurd h ?_
      rw [← List.append_assoc]
      exact not_reads_line (by simp [hu, ha]) hb
  · rintro ⟨v, w, rfl, hv, k, hk⟩
    refine ⟨k, ?_⟩
    have := reads_line (u := u ++ v) (by simp [hu, hv]) (w ++ b)
    simpa using this.trans (hk b)

end CallerFirst.Java.Token
