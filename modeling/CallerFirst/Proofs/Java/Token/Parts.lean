import CallerFirst.Proofs.Java.Escape
import CallerFirst.Proofs.Java.Token.Reads

/-!
# A text put together from parts

A text is cut where its members begin: `Parts.heads` are what stands in front of the members and the
members with the comments behind them, `Parts.leads` what stands between one and the next.
`Parts.kept_iff`: all is read where it was put if line comments end in front of what comes next.
-/

namespace CallerFirst.Java.Token

variable {a b head lead own tail z : List Char} {ts us : List Lexeme}

/-- The text ends in a semicolon or brace of its own, whatever follows. -/
def Ended (a : List Char) (ts : List Lexeme) : Prop :=
  ∃ u x us, a = u ++ [x] ∧ isStop x = true ∧ ts = us ++ [(.separator, String.ofList [x])] ∧
    ∀ y, Reads (u ++ x :: y) us (x :: y)

def LineComment (a : List Char) : Prop :=
  ∃ w body, a = w ++ '/' :: '/' :: body ∧ (∀ c ∈ w, Text.isBlank c = true) ∧ '\n' ∉ body

/-- A text that ends by itself, with a comment behind it. -/
structure Head (head : List Char) (ts : List Lexeme) (own tail : List Char) : Prop where
  eq : head = own ++ tail
  ended : Ended own ts
  comment : Solid tail [] ∨ LineComment tail

theorem Ended.solid (h : Ended a ts) : Solid a ts := by
  obtain ⟨u, x, us, rfl, hx, rfl, hread⟩ := h
  intro rest
  rw [List.append_assoc]
  exact (hread rest).trans (solid_separator hx rest)

/-- A text that reads the same whatever follows does not end in a line comment, if it is blank. -/
theorem not_endsInComment_of_solid (h : Solid a []) : ¬EndsInComment a := by
  rintro ⟨ts, body, hbody, hread⟩
  obtain ⟨u, rfl⟩ := hread.suffix
  -- nothing is read in front of the comment
  obtain ⟨vs, hvs, -⟩ := hread.linear (by simpa using h []) (Nat.zero_le _)
  obtain ⟨rfl, rfl⟩ := List.append_eq_nil_iff.mp hvs.symm
  have hfront := solid_of_semicolons (k := 0) (by simp) hread
  have hbehind := h [';']
  rw [List.append_assoc] at hbehind
  obtain ⟨vs, -, hline⟩ := (hfront _).linear hbehind (by simp)
  exact not_reads_line hbody (by simp) hline

theorem Head.not_endsInComment (h : Head head ts own tail) (htail : Solid tail []) :
    ¬EndsInComment head := by
  obtain ⟨rfl, ⟨u, x, us, rfl, hx, rfl, hown⟩, -⟩ := h
  rintro ⟨vs, body, hbody, hread⟩
  have hx' : x ≠ '/' := by
    rintro rfl
    cases hx
  have hstop := hown tail
  rw [List.append_assoc, List.singleton_append] at hread
  rcases Nat.lt_or_ge tail.length ('/' :: '/' :: body).length with hlt | hle
  · -- the comment would have to begin in front of the end
    obtain ⟨ws, -, hws⟩ := hread.linear hstop (by simp only [List.length_cons] at hlt ⊢; omega)
    obtain ⟨v, hv⟩ := hws.suffix
    match v, hv with
    | [], hv => exact hx' (List.cons.inj hv).1
    | [_], hv => exact hx' (List.cons.inj (List.cons.inj hv).2).1
    | _ :: _ :: v, hv =>
      obtain ⟨rfl, rfl, rfl⟩ : _ ∧ _ ∧ v ++ x :: tail = body := by simpa using hv
      exact not_reads_line (fun h => hbody (List.mem_append_left _ h)) (by simp) hws
  · obtain ⟨ws, -, hws⟩ := hstop.linear hread (by simp at hle ⊢; omega)
    obtain ⟨xs, -, hxs⟩ := (solid_separator hx tail).linear hws (by simpa using hle)
    exact not_endsInComment_of_solid htail ⟨_, body, hbody, hxs⟩

theorem Head.endsInComment (h : Head head ts own tail) (htail : LineComment tail) :
    EndsInComment head := by
  obtain ⟨w, body, rfl, hw, hbody⟩ := htail
  have hread := (h.ended.solid _).trans (reads_blanks hw ('/' :: '/' :: body))
  exact ⟨ts, body, hbody, by simpa [h.eq] using hread⟩

theorem Head.reads_iff (h : Head head ts own tail) (hlead : Filler lead) (hz : z ≠ []) :
    (∃ k, Reads (head ++ (lead ++ z)) (ts ++ List.replicate k semicolon) z) ↔
      (EndsInComment head → EndsComment lead) := by
  rcases h.comment with htail | hcomment
  · refine iff_of_true ?_ fun hcomment => absurd hcomment (h.not_endsInComment htail)
    obtain ⟨k, hk⟩ := hlead
    have hhead := (h.ended.solid.append htail).append hk z
    rw [h.eq, ← List.append_assoc]
    exact ⟨k, by simpa using hhead⟩
  · have hends := h.endsInComment hcomment
    obtain ⟨w, body, rfl, hw, hbody⟩ := hcomment
    obtain ⟨rfl, hended, -⟩ := h
    have hopen (y : List Char) :
        Reads (own ++ (w ++ '/' :: '/' :: (body ++ y))) ts ('/' :: '/' :: (body ++ y)) := by
      simpa using (hended.solid _).trans (reads_blanks hw ('/' :: '/' :: (body ++ y)))
    rw [← reads_comment_iff hbody hz]
    simp only [List.append_assoc, List.cons_append, hends, forall_const]
    constructor
    · rintro ⟨k, hk⟩
      obtain ⟨vs, hvs, hread⟩ := (hopen (lead ++ z)).linear hk (by simp; omega)
      obtain rfl := List.append_cancel_left hvs
      exact ⟨k, hread⟩
    · rintro ⟨k, hk⟩
      exact ⟨k, (hopen (lead ++ z)).trans hk⟩

-- ---------------------------------------------------------------------------
-- Parts
-- ---------------------------------------------------------------------------

inductive ReadsInTurn : List (List Char) → List (List Lexeme) → Prop
  | nil : ReadsInTurn [] []
  | cons {a as ts tss} (h : Reads (a ++ as.flatten) ts as.flatten) :
      ReadsInTurn as tss → ReadsInTurn (a :: as) (ts :: tss)

theorem ReadsInTurn.reads {as : List (List Char)} {tss : List (List Lexeme)}
    (h : ReadsInTurn as tss) : Reads as.flatten tss.flatten [] := by
  induction h with
  | nil => exact .done []
  | cons h _ ih => exact h.trans ih

/-- A text with the place of every member in it: heads and leads take turns, the first head is what
stands in front of the first member, and `closing` is the rest from the closing brace on. -/
structure Parts where
  heads : List (List Char)
  leads : List (List Char)
  closing : List Char
  /-- What the heads are to be read as. -/
  lexemes : List (List Lexeme)
  behind : List Lexeme

namespace Parts

def text (p : Parts) : List Char :=
  (List.zipWith (· ++ ·) p.heads p.leads ++ [p.closing]).flatten

/-- The lexemes with some number of semicolons behind those of each head. -/
def withStrays (p : Parts) (strays : List Nat) : List (List Lexeme) :=
  List.zipWith (fun ts k => ts ++ List.replicate k semicolon) p.lexemes strays ++ [p.behind]

/-- The text is cut into the lexemes of its parts, up to semicolons between them, and every head and
the closing brace are read where they stand. -/
def Kept (p : Parts) : Prop :=
  ∃ strays toks, strays.length = p.heads.length ∧ ofSource p.text = .ok toks ∧
    toks.map lexeme = (p.withStrays strays).flatten ∧
    ReadsInTurn (List.zipWith (· ++ ·) p.heads p.leads ++ [p.closing]) (p.withStrays strays)

def CommentsEnd (p : Parts) : Prop :=
  List.Forall₂ (fun head lead => EndsInComment head → EndsComment lead) p.heads p.leads

end Parts

-- ---------------------------------------------------------------------------
-- Reading the parts
-- ---------------------------------------------------------------------------

/-- Heads and leads that take turns: heads end by themselves or in a comment, leads are filler, and
no escape begins in them or across the end of a head that is not in a comment. -/
inductive Alternate (closing : List Char) :
    List (List Char) → List (List Char) → List (List Lexeme) → Prop
  | last {head lead own tail : List Char} {ts : List Lexeme} (hhead : Head head ts own tail) (hlead : Filler lead)
      (hfree : Escape.Free (lead ++ closing)) : Alternate closing [head] [lead] [ts]
  | cons {head lead own tail next : List Char} {ts : List Lexeme} {heads leads tss waits}
      (hhead : Head head ts own tail) (hlead : Filler lead)
      (hfree : Escape.after false (lead ++ next) = some waits)
      (hwaits : waits = true → EndsInComment next)
      (hrest : Alternate closing (next :: heads) leads tss) :
      Alternate closing (head :: next :: heads) (lead :: leads) (ts :: tss)

variable {closing : List Char} {heads leads : List (List Char)} {tss : List (List Lexeme)}

theorem EndsComment.ne_nil (h : EndsComment a) : a ≠ [] := by
  obtain ⟨u, v, rfl, -⟩ := h
  simp

theorem Filler.after_eq (hlead : Filler lead) (waits : Bool)
    (hends : waits = true → lead ≠ []) (a : List Char) :
    Escape.after waits (lead ++ a) = Escape.after false (lead ++ a) := by
  cases waits with
  | false => rfl
  | true =>
    obtain ⟨c, lead, rfl⟩ := List.exists_cons_of_ne_nil (hends rfl)
    have hc : c ≠ '\\' ∧ c ≠ 'u' := by
      rcases hlead.head with h | rfl | rfl
      · constructor <;> rintro rfl <;> exact absurd h (by decide)
      · decide
      · decide
    rw [List.cons_append, Escape.after_cons hc.1 hc.2, Escape.after_cons hc.1 hc.2]

theorem Alternate.readsInTurn_iff (h : Alternate closing heads leads tss)
    (hclosing : Reads closing behind []) (hne : closing ≠ []) :
    (∃ strays : List Nat, strays.length = heads.length ∧
      ReadsInTurn (List.zipWith (· ++ ·) heads leads ++ [closing])
        (List.zipWith (fun ts k => ts ++ List.replicate k semicolon) tss strays ++ [behind])) ↔
      List.Forall₂ (fun head lead => EndsInComment head → EndsComment lead) heads leads := by
  induction h with
  | last hhead hlead hfree =>
    rw [List.forall₂_cons, ← hhead.reads_iff hlead hne]
    constructor
    · rintro ⟨strays, hlength, hreads⟩
      obtain ⟨k, rfl⟩ := List.length_eq_one_iff.mp hlength
      cases hreads with
      | cons hread => exact ⟨⟨k, by simpa using hread⟩, .nil⟩
    · rintro ⟨⟨k, hk⟩, -⟩
      exact ⟨[k], rfl, .cons (by simpa using hk) (.cons (by simpa using hclosing) .nil)⟩
  | @cons head lead own tail next ts heads leads tss waits hhead hlead hfree hwaits hrest ih =>
    have hflat : (List.zipWith (· ++ ·) (next :: heads) leads ++ [closing]).flatten ≠ [] := by
      simp [hne]
    rw [List.forall₂_cons, ← ih, ← hhead.reads_iff hlead hflat]
    constructor
    · rintro ⟨strays, hlength, hreads⟩
      obtain ⟨k, strays, rfl⟩ := List.exists_cons_of_length_eq_add_one hlength
      cases hreads with
      | cons hread hrest =>
        exact ⟨⟨k, by simpa [List.append_assoc] using hread⟩, strays, by simpa using hlength, hrest⟩
    · rintro ⟨⟨k, hk⟩, strays, hlength, hrest⟩
      refine ⟨k :: strays, by simp [hlength], .cons ?_ hrest⟩
      simpa [List.append_assoc] using hk

theorem Alternate.exists_cons (h : Alternate closing heads leads tss) :
    ∃ head hs lead ls, heads = head :: hs ∧ leads = lead :: ls := by
  cases h with
  | last => exact ⟨_, _, _, _, rfl, rfl⟩
  | cons => exact ⟨_, _, _, _, rfl, rfl⟩

theorem Alternate.free_behind (h : Alternate closing (head :: heads) (lead :: leads) tss)
    (hends : List.Forall₂ (fun head lead => EndsInComment head → EndsComment lead)
      (head :: heads) (lead :: leads)) (waits : Bool) (hwaits : waits = true → EndsInComment head) :
    (Escape.after waits
      (lead ++ (List.zipWith (· ++ ·) heads leads ++ [closing]).flatten)).isSome = true := by
  generalize hheads : head :: heads = hs at h
  generalize hleads : lead :: leads = ls at h
  induction h generalizing head lead heads leads waits with
  | last hhead hlead hfree =>
    cases hheads
    cases hleads
    rw [hlead.after_eq waits fun hw => ((List.forall₂_cons.mp hends).1 (hwaits hw)).ne_nil]
    simpa [Escape.Free] using hfree
  | @cons _ _ _ _ next _ heads' leads' _ waits' hhead hlead hfree hnext hrest ih =>
    cases hheads
    cases hleads
    obtain ⟨hfirst, hends⟩ := List.forall₂_cons.mp hends
    obtain ⟨-, -, lead', leads', -, rfl⟩ := hrest.exists_cons
    rw [hlead.after_eq waits fun hw => (hfirst (hwaits hw)).ne_nil]
    have := ih hends waits' hnext rfl rfl
    simp only [List.zipWith_cons_cons, List.cons_append, List.flatten_cons, List.append_assoc]
    rw [← List.append_assoc, Escape.after_append, hfree]
    exact this

structure Parts.Fits (p : Parts) : Prop where
  alternate : Alternate p.closing p.heads p.leads p.lexemes
  closing : Reads p.closing p.behind []
  closing_ne : p.closing ≠ []
  first : ∀ head ∈ p.heads.head?, Escape.after false head = some false

/-- All is read where it was put if line comments end in front of what comes next. -/
theorem Parts.Fits.kept_iff {p : Parts} (h : p.Fits) : p.Kept ↔ p.CommentsEnd := by
  rw [Parts.CommentsEnd, ← h.alternate.readsInTurn_iff h.closing h.closing_ne]
  constructor
  · rintro ⟨strays, toks, hlength, -, -, hreads⟩
    exact ⟨strays, hlength, hreads⟩
  · intro hreads
    have hends := (h.alternate.readsInTurn_iff h.closing h.closing_ne).mp hreads
    obtain ⟨strays, hlength, hreads⟩ := hreads
    obtain ⟨toks, hscan, htoks⟩ := scan_iff_reads.mpr hreads.reads
    refine ⟨strays, toks, hlength, ?_, htoks, hreads⟩
    have hfree : Escape.Free p.text := by
      unfold Escape.Free Parts.text
      obtain ⟨head, heads, lead, leads, hheads, hleads⟩ := h.alternate.exists_cons
      have halternate := h.alternate
      have hfirst := h.first
      rw [hheads] at hfirst
      rw [hheads, hleads] at halternate hends
      simp only [hheads, hleads, List.zipWith_cons_cons, List.cons_append, List.flatten_cons,
        List.append_assoc]
      rw [Escape.after_append, hfirst head rfl]
      exact halternate.free_behind hends false (by simp)
    rw [ofSource, Escape.expand_of_free hfree]
    exact hscan

end CallerFirst.Java.Token
