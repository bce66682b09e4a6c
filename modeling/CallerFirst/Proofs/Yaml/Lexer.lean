import CallerFirst.Proofs.Except
import CallerFirst.Proofs.Yaml.Places
import CallerFirst.Yaml.Token.Lexer

/-!
# One token after the other

What a lexer does outside of flow collections: behind a gap, at a word that may be a key, at the
colon behind it, and at a plain scalar. `Leads` puts such steps together: one lexer comes to another
one and takes at least a character for each token.
-/

namespace CallerFirst.Yaml

def scalarToken (v : Value) : Token :=
  .scalar ⟨scalarText v, false⟩ (isWrittenPlain v)

namespace Lexer

theorem run_of_skipGap {l m : Lexer} (h : l.skipGap = m.skipGap) {fuel : Nat} {tokens : List Token}
    (hm : run (fuel + 1) m = { tokens }) : run (fuel + 1) l = { tokens } := by
  have hnext : l.next = m.next := by rw [next, next, h]
  rw [run] at hm ⊢
  rw [hnext]
  split at hm
  · exact absurd (congrArg Tokens.fault hm) (by simp)
  · exact hm
  · exact hm

/-- A lexer comes to another one, behind no more tokens than characters: what that one cuts a text
into without a fault are the tokens of the whole text. -/
def Leads (l m : Lexer) : Prop :=
  ∃ n, n + m.place.rest.length ≤ l.place.rest.length ∧
    ∀ fuel tokens, run (fuel + 1) m = { tokens } → run (n + fuel + 1) l = { tokens }

namespace Leads

variable {l m k : Lexer}

theorem refl (l : Lexer) : Leads l l :=
  ⟨0, by omega, fun fuel _ h => by rwa [Nat.zero_add]⟩

theorem trans (h : Leads l m) (h' : Leads m k) : Leads l k := by
  obtain ⟨n, hn, hrun⟩ := h
  obtain ⟨n', hn', hrun'⟩ := h'
  refine ⟨n + n', by omega, fun fuel tokens hk => ?_⟩
  rw [Nat.add_assoc n]
  exact hrun (n' + fuel) tokens (hrun' fuel tokens hk)

theorem of_skipGap (h : l.skipGap = m.skipGap)
    (hlength : m.place.rest.length ≤ l.place.rest.length) : Leads l m := by
  refine ⟨0, by omega, fun fuel tokens hm => ?_⟩
  rw [Nat.zero_add]
  exact run_of_skipGap h hm

theorem of_next (h : l.next = .ok (k, false)) (hgap : k.skipGap = m.skipGap)
    (hlength : m.place.rest.length < l.place.rest.length) : Leads l m := by
  refine ⟨1, by omega, fun fuel tokens hm => ?_⟩
  rw [Nat.add_comm 1, run, h]
  exact run_of_skipGap hgap hm

end Leads

/-! ### The next token -/

/-- A lexer outside of flow collections, with no node that may turn out to be a key. -/
def inBlock (place : Place) (tokens : List Token) (columns : List Nat) (mayKey : Bool) : Lexer :=
  { place, tokens, columns, mayKey }

theorem skipGap_eq {l : Lexer} {ended : Bool} {stop : Place} (hgap : l.place.gap = (ended, stop))
    (hdepth : l.depth = 0) (hpending : ∀ key ∈ l.pending, key.isOutOfReach stop = false) :
    l.skipGap = .ok ({ l with place := stop, mayKey := l.mayKey || ended }.closeBehind
      stop.column) := by
  have hlost : l.pending.filter (·.isOutOfReach stop) = [] :=
    List.filter_eq_nil_iff.2 fun key hkey => by simp [hpending key hkey]
  have hkept : l.pending.filter (!·.isOutOfReach stop) = l.pending :=
    List.filter_eq_self.2 fun key hkey => by simp [hpending key hkey]
  rw [skipGap]
  simp only [hgap, dropUnreachable, List.partition_eq_filter_filter, Function.comp_def, hlost,
    hkept, inFlow, hdepth]
  simp

theorem close_eq (l : Lexer) (kept : List Nat) (n : Nat) :
    l.close kept n = { l with
      tokens := List.replicate n .blockEnd ++ l.tokens, columns := kept } := by
  induction n generalizing l with
  | zero => rfl
  | succ n ih =>
    rw [close, ih, List.replicate_succ']
    simp [push]

theorem closeBehind_self {l : Lexer} {column : Nat} (h : ∀ c ∈ l.columns.head?, c ≤ column) :
    l.closeBehind column = l := by
  rw [closeBehind]
  split
  · rfl
  · rw [close_eq]
    obtain ⟨place, tokens, columns, depth, mayKey, pending⟩ := l
    cases columns with
    | nil => rfl
    | cons c rest =>
      have hc : ¬column < c := by simpa using h
      simp [hc]

theorem closeBehind_cons {l : Lexer} {c column : Nat} {rest : List Nat}
    (hcolumns : l.columns = c :: rest) (hc : column < c) (hdepth : l.depth = 0) :
    l.closeBehind column =
      ({ l.push .blockEnd with columns := rest } : Lexer).closeBehind column := by
  rw [closeBehind, closeBehind, close_eq, close_eq, hcolumns]
  simp [hc, inFlow, push, hdepth, List.replicate_succ']

theorem skipGap_self {l : Lexer} (hover : gapIsOver l.place.rest = true) (hdepth : l.depth = 0)
    (hpending : ∀ key ∈ l.pending, key.isOutOfReach l.place = false)
    (hcolumns : ∀ c ∈ l.columns.head?, c ≤ l.place.column) : l.skipGap = .ok l := by
  rw [skipGap_eq (Place.gap_over hover) hdepth hpending, Bool.or_false,
    closeBehind_self hcolumns]

theorem next_eq {l : Lexer} (hgap : l.skipGap = .ok l) {c : Char} {rest : List Char}
    (hp : l.place.rest = c :: rest) : l.next = (l.tokenAt c rest).map (·, false) := by
  rw [next, hgap]
  simp only [ok_bind, hp]
  cases l.tokenAt c rest <;> rfl

theorem tokenAt_alphanum {l : Lexer} {c : Char} {rest : List Char} (hp : l.place.rest = c :: rest)
    (hc : c.isAlphanum = true) : l.tokenAt c rest = l.node (readPlain l.inFlow l.floor) := by
  -- every other token starts with a mark, which is neither a letter nor a digit
  have hne (d : Char) (hd : d.isAlphanum = false := by decide) : c ≠ d := by
    rintro rfl
    simp [hc] at hd
  have hmark (mark : Char) (hd : mark.isAlphanum = false := by decide) :
      l.place.atMark mark = false := by
    simp [Place.atMark, markAhead, hp, (hne mark hd).symm]
  have hstarts : startsPlain l.inFlow (c :: rest) = true := by
    have hspace : isSpace c = false := isSpace_of_isWordChar (by simp [isWordChar, hc])
    have hindicator : isIndicator c = false := by
      have hnone : "-?:,[]\x7b\x7d#&*!|>'\"%@`".toList.all (!·.isAlphanum) := by decide
      rw [isIndicator, ← Bool.not_eq_true, List.contains_iff_mem]
      intro hm
      simpa [hc] using List.all_eq_true.1 hnone c hm
    simp [startsPlain, hspace, hindicator]
  simp [tokenAt, hmark '-', hmark '.', hne '%', hne '[', hne '\x7b', hne ']', hne '\x7d', hne ',',
    hne '-', hne '?', hne ':', hne '*', hne '&', hne '!', hne '|', hne '>', hne '\'', hne '"',
    hstarts]

theorem tokenAt_dash {l : Lexer} {d : Char} {rest : List Char}
    (hp : l.place.rest = '-' :: d :: rest) (hd : d.isDigit = true) :
    l.tokenAt '-' (d :: rest) = l.node (readPlain l.inFlow l.floor) := by
  have hspace : isSpace d = false :=
    isSpace_of_isWordChar (by simp [isWordChar, Char.isAlphanum, hd])
  have hdash : d ≠ '-' := ne_of_isDigit hd (by decide)
  have hmark (mark : Char) (hm : mark ≠ d) : l.place.atMark mark = false := by
    simp [Place.atMark, markAhead, hp, hm]
  have hstarts : startsPlain l.inFlow ('-' :: d :: rest) = true := by
    simp [startsPlain, spaceAhead, aheadIs, hspace]
    decide
  simp [tokenAt, hmark '-' hdash.symm, hmark '.' (ne_of_isDigit hd (by decide)).symm, spaceAhead,
    aheadIs, hspace, hstarts]

section

variable {p : Place} {tokens : List Token} {columns : List Nat} {mayKey : Bool} {v : Value}
  {behind : List Char}

theorem skipGap_inBlock {stop : Place} {ended : Bool} (hgap : p.gap = (ended, stop)) :
    (inBlock p tokens columns mayKey).skipGap =
      .ok ((inBlock stop tokens columns (mayKey || ended)).closeBehind stop.column) :=
  skipGap_eq hgap rfl (by simp [inBlock])

theorem skipGap_congr {q stop : Place} {ended ended' mayKey' : Bool} (hp : p.gap = (ended, stop))
    (hq : q.gap = (ended', stop)) (hkey : (mayKey || ended) = (mayKey' || ended')) :
    (inBlock p tokens columns mayKey).skipGap = (inBlock q tokens columns mayKey').skipGap := by
  rw [skipGap_inBlock hp, skipGap_inBlock hq, hkey]

theorem gapIsOver_scalarText (hv : IsScalar v) (hplain : isWrittenPlain v = true)
    (behind : List Char) : gapIsOver (scalarText v ++ behind) = true := by
  rcases hv.initial hplain with ⟨c, rest, htext, hc⟩ | ⟨d, rest, htext, hd⟩
  · have hmark : c ≠ '#' := by
      rintro rfl
      exact absurd hc (by decide)
    rw [htext]
    exact gapIsOver_cons (by simp [isWordChar, hc]) hmark _
  · rw [htext]
    exact gapIsOver_cons (by decide) (by decide) _

theorem next_plain (hv : IsScalar v) (hplain : isWrittenPlain v = true)
    (hp : p.rest = scalarText v ++ behind) (hcolumns : ∀ c ∈ columns.head?, c ≤ p.column) :
    (inBlock p tokens columns mayKey).next =
      ((inBlock p tokens columns mayKey).node
        (readPlain false (inBlock p tokens columns mayKey).floor)).map (·, false) := by
  have hgap := skipGap_self (l := inBlock p tokens columns mayKey)
    (hp ▸ gapIsOver_scalarText hv hplain behind) rfl (by simp [inBlock]) hcolumns
  rcases hv.initial hplain with ⟨c, rest, htext, hc⟩ | ⟨d, rest, htext, hd⟩
  · rw [htext, List.cons_append] at hp
    rw [next_eq hgap hp, tokenAt_alphanum hp hc]
    rfl
  · rw [htext, List.cons_append, List.cons_append] at hp
    rw [next_eq hgap hp, tokenAt_dash hp hd]
    rfl

theorem node_eq {l noted : Lexer} {read : Place → Except Fault (Token × Bool × Place)}
    {token : Token} {stop : Place} (hnote : l.noteKey = .ok noted)
    (hread : read noted.place = .ok (token, mayKey, stop)) :
    l.node read = .ok { noted.push token with mayKey, place := stop } := by
  rw [node, hnote]
  simp only [ok_bind, hread]
  rfl

def keyAt (p : Place) (tokens : List Token) (columns : List Nat) : PendingKey :=
  { depth := 0, number := tokens.length, required := columns.head? == some p.column, start := p }

theorem noteKey_inBlock :
    (inBlock p tokens columns true).noteKey =
      .ok { inBlock p tokens columns true with pending := [keyAt p tokens columns] } :=
  rfl

theorem next_key (tokens : List Token) {word : String} (hword : IsWord word) {rest : List Char}
    (hrest : spaceAhead rest = true) (hp : p.rest = word.toList ++ ':' :: rest)
    (hcolumns : ∀ c ∈ columns.head?, c ≤ p.column) :
    (inBlock p tokens columns true).next =
      .ok ({ place := p.advance word.length, tokens := scalarToken (.text word) :: tokens, columns,
             mayKey := false, pending := [keyAt p tokens columns] }, false) := by
  have hlength : p.rest.length = (word.length + rest.length) + 1 := by
    rw [hp, List.length_append, String.length_toList, List.length_cons, Nat.add_assoc]
  have hread (floor : Nat) : readPlain false floor p =
      .ok (scalarToken (.text word), false, p.advance word.length) := by
    rw [readPlain, hlength, plainText_key hword.isWordChar hrest hp, String.length_toList, scalarToken,
      hword.isWrittenPlain]
    rfl
  rw [next_plain (.word hword) hword.isWrittenPlain hp hcolumns,
    node_eq noteKey_inBlock (hread _)]
  rfl

theorem tokenAt_colon {l : Lexer} {rest : List Char} (hp : l.place.rest = ':' :: rest)
    (hrest : spaceAhead rest = true) : l.tokenAt ':' rest = l.colon := by
  have hmark (mark : Char) (h : mark ≠ ':') : l.place.atMark mark = false := by
    simp [Place.atMark, markAhead, hp, h]
  simp [tokenAt, hmark '-' (by decide), hmark '.' (by decide), hrest]

/-- A key in a column opens a map there, unless it belongs to the innermost one. -/
inductive Opens (column : Nat) : List Nat → List Token → List Nat → Prop
  | first {outer : List Nat} (h : ∀ c ∈ outer.head?, c < column) :
      Opens column outer [.blockMap] (column :: outer)
  | later {outer : List Nat} : Opens column (column :: outer) [] (column :: outer)

theorem Opens.head_le {column : Nat} {opened : List Token} {inner : List Nat}
    (h : Opens column columns opened inner) : ∀ c ∈ columns.head?, c ≤ column := by
  cases h with
  | first h => exact fun c hc => Nat.le_of_lt (h c hc)
  | later => simp

theorem insert_last {l : Lexer} {token : Token} (h : l.tokens = token :: tokens)
    (marks : List Token) :
    l.insert tokens.length marks = { l with tokens := token :: (marks.reverse ++ tokens) } := by
  simp [insert, h]

theorem opens_eq {l : Lexer} {column : Nat} (h : l.depth = 0) :
    l.opens column = true ↔ ∀ c ∈ l.columns.head?, c < column := by
  rw [opens, inFlow, h, floor]
  cases l.columns.head? with
  | none => simp
  | some c =>
    simp only [Option.mem_def, Option.some.injEq, forall_eq']
    exact decide_eq_true_iff.trans Nat.succ_le_iff

/-- The colon behind a key: the key gets its mark, behind the start of the map that it opens. -/
theorem next_colon (start : Place) (token : Token) (tokens : List Token) {opened : List Token}
    {inner : List Nat} {rest : List Char} (hrest : spaceAhead rest = true) (hp : p.rest = ':' :: rest)
    (hopens : Opens start.column columns opened inner) (hcolumn : start.column ≤ p.column)
    (hline : start.line = p.line) (hreach : p.index ≤ start.index + keyReach) :
    ({ place := p, tokens := token :: tokens, columns, mayKey := false,
       pending := [keyAt start tokens columns] } : Lexer).next =
      .ok (inBlock p.step (.value :: token :: .key :: (opened ++ tokens)) inner false, false) := by
  let bare : Lexer := { place := p, tokens := token :: tokens, columns, mayKey := false }
  have hgap := skipGap_self (l := { bare with pending := [keyAt start tokens columns] })
    (by show gapIsOver p.rest = true; rw [hp]; rfl) rfl
    (by simp [bare, keyAt, PendingKey.isOutOfReach, hline, hreach])
    (fun c hc => (hopens.head_le c hc).trans hcolumn)
  have hcolon : ({ bare with pending := [keyAt start tokens columns] } : Lexer).colon =
      .ok { (if bare.opens start.column then
          { bare.insert tokens.length [.blockMap, .key] with columns := start.column :: columns }
        else bare.insert tokens.length [.key]).take 1 .value with mayKey := false } := rfl
  rw [next_eq hgap hp, tokenAt_colon hp hrest, hcolon, insert_last rfl, insert_last rfl]
  cases hopens with
  | first h =>
    rw [if_pos ((opens_eq rfl).2 h)]
    rfl
  | later =>
    rw [if_neg (by simp [opens_eq, bare])]
    rfl

end

end Lexer

end CallerFirst.Yaml
