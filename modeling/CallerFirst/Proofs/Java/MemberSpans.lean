import CallerFirst.Proofs.Java.Span
import CallerFirst.Proofs.Java.Token.InPlace
import CallerFirst.Proofs.TokensKept

/-!
# Spans of members

Where every token stands at its offset, the comment behind a member ends in front of the next token
(`extendOverComment_le`): up to the next token or line break the source holds no escape, so both show
the same comments. Spans of members then stand one behind the other, and hold the tokens of their
runs (`readUnit_delimited`). A comment that an escape closes reaches farther in the source than in
what is read of it (`overlap_of_escape`).
-/

namespace CallerFirst.Java

open Token Source

variable {source text : List Char} {toks before : List Token} {t t' : Token}
variable {n n' f f' : Nat}

-- ---------------------------------------------------------------------------
-- Comments in front of a token
-- ---------------------------------------------------------------------------

section Tails

variable {g r w x y behind : List Char} {u v : Bool}

theorem exists_behind_blanks (hw : ∀ c ∈ w, c = ' ' ∨ c = '\t') (hread : Reads (g ++ y) [] y)
    (hy : StartsToken y) (hsplit : g ++ y = w ++ x) :
    ∃ g', g = w ++ g' ∧ x = g' ++ y ∧ Reads x [] y := by
  have hblanks := reads_blanks (isBlank_of_trails hw) x
  rw [hsplit] at hread
  have hle := hblanks.le_of_startsToken hread (le_refl _) hy
  obtain ⟨vs, hvs, hread⟩ := hblanks.linear hread hle
  obtain rfl : vs = [] := by simpa using hvs.symm
  obtain ⟨g', rfl⟩ := hread.suffix
  exact ⟨g', List.append_cancel_right (by simpa using hsplit), rfl, hread⟩

theorem mem_of_reads_line (hread : Reads ('/' :: '/' :: r) [] y) (hy : StartsToken y)
    (hsplit : '/' :: '/' :: r = g ++ y) : '\n' ∈ g := by
  by_cases hr : '\n' ∈ r
  · obtain ⟨a, b, rfl, ha⟩ := List.eq_append_cons_of_mem hr
    have hle := (reads_line ha b).le_of_startsToken hread (le_refl _) hy
    have hb : b <:+ '/' :: '/' :: (a ++ '\n' :: b) := ⟨'/' :: '/' :: (a ++ ['\n']), by simp⟩
    obtain ⟨g', rfl⟩ := List.suffix_of_suffix_length_le hread.suffix hb hle
    obtain rfl : g = '/' :: '/' :: (a ++ '\n' :: g') :=
      List.append_cancel_right (hsplit.symm.trans (by simp))
    simp
  · have hle := (reads_to_end hr).le_of_startsToken hread (le_refl _) hy
    obtain ⟨c, rest, kind, length, rfl, -⟩ := hy
    cases hle

theorem exists_blockEnd?_of_reads (hread : Reads ('/' :: '*' :: r) [] y) (hy : StartsToken y) :
    ∃ m, blockEnd? r = some m ∧ y.length + m ≤ r.length := by
  obtain ⟨p, hp⟩ : ∃ p, pieceAt 0 '/' ('*' :: r) = .ok p := by
    generalize ha : '/' :: '*' :: r = a, hts : ([] : List Lexeme) = ts at hread
    cases hread with
    | done =>
      obtain ⟨c, rest, kind, length, heq, hp⟩ := hy
      cases ha.trans heq
      exact ⟨_, hp⟩
    | blank hc =>
      cases ha
      cases hc
    | piece _ hp =>
      cases ha
      exact ⟨_, hp⟩
  cases hm : blockEnd? r with
  | none =>
    rw [pieceAt, if_neg (by decide), if_neg (by simp), if_pos (by simp), List.drop_one,
      List.tail_cons, hm] at hp
    cases hp
  | some m =>
    have hle := (reads_piece (pieceAt_block 0 hm)).le_of_startsToken hread (le_refl _) hy
    have := blockEnd?_le hm
    refine ⟨m, rfl, ?_⟩
    simp only [Piece.length, List.length_drop, List.length_cons] at hle
    omega

theorem exists_mark {d : Char} (hexpands : Escape.Expands u (w ++ '/' :: d :: behind) (g ++ y) v)
    (hw : ∀ c ∈ w, c = ' ' ∨ c = '\t') (hd : '\\' ≠ d) (hread : Reads (g ++ y) [] y)
    (hy : StartsToken y) :
    ∃ x g', g = w ++ g' ∧ '/' :: d :: x = g' ++ y ∧ Reads ('/' :: d :: x) [] y := by
  have hplain : '\\' ∉ w ++ ['/', d] := by
    intro hmem
    rcases List.mem_append.mp hmem with hmem | hmem
    · simpa using hw _ hmem
    · simp [hd] at hmem
  rw [List.append_cons, List.append_cons, List.append_assoc w] at hexpands
  obtain ⟨x, hx⟩ := hexpands.exists_plain hplain
  obtain ⟨g', hg, hx, hread⟩ := exists_behind_blanks hw hread hy (hx.trans (List.append_assoc ..))
  exact ⟨x, g', hg, hx, hread⟩

/-- In front of a token, where neither escape nor line break stands, the source shows the comments
that are read. -/
theorem tailLength_le (hexpands : Escape.Expands u (g ++ behind) (g ++ y) v)
    (hread : Reads (g ++ y) [] y) (hy : StartsToken y) (hbreak : '\n' ∉ g) :
    tailLength (g ++ behind) ≤ g.length := by
  obtain ⟨tail, rest, htext, hlength, htail⟩ := exists_trails (g ++ behind)
  rw [← hlength]
  rw [htext] at hexpands
  cases htail with
  | nothing => exact Nat.zero_le _
  | @line w body rest hw _ _ =>
    rw [List.append_assoc] at hexpands
    obtain ⟨x, g', rfl, hx, hread⟩ := exists_mark hexpands hw (by decide) hread hy
    exact absurd (List.mem_append_right w (mem_of_reads_line hread hy hx)) hbreak
  | @block w body rest hw _ hend =>
    rw [List.append_assoc] at hexpands
    obtain ⟨x, g', rfl, hx, hread⟩ := exists_mark hexpands hw (by decide) hread hy
    obtain ⟨m, hm, hle⟩ := exists_blockEnd?_of_reads hread hy
    have hlong := congrArg List.length hx
    simp only [List.length_append, List.length_cons] at hlong
    obtain ⟨a, rfl⟩ : ['/', '*'] <+: g' := List.prefix_of_prefix_length_le ⟨x, hx⟩ ⟨y, rfl⟩
      (by simp only [List.length_cons, List.length_nil]; omega)
    obtain rfl : x = a ++ y := by simpa using hx
    simp only [List.length_append, List.length_cons, List.length_nil] at hlong hle ⊢
    -- both find the mark that closes the comment
    have hclosed := blockEnd?_append hm (by omega) behind
    have hsource : a ++ behind = (body ++ ['*', '/']) ++ rest := by simpa using htext
    rw [hsource, blockEnd?_append (y := []) (by simpa using hend) (by simp) rest] at hclosed
    cases hclosed
    omega

theorem tailLength_le_of_break (hbreak : '\n' ∈ g) : tailLength (g ++ behind) ≤ g.length := by
  obtain ⟨tail, rest, htext, hlength, htail⟩ := exists_trails (g ++ behind)
  rw [← hlength]
  by_contra hlt
  have hfront : g <+: tail :=
    List.prefix_of_prefix_length_le (List.prefix_append g behind) ⟨rest, htext.symm⟩ (by omega)
  exact htail.not_break (hfront.subset hbreak)

end Tails

theorem extendOverComment_le (h : Placed source text before t n f)
    (h' : Placed source text (before ++ [t]) t' n' f') :
    extendOverComment source (n + t.text.length) ≤ n' := by
  have hle := h.stop_le h' (by simp)
  have hread := h.read.reads_gap h'.read
  obtain ⟨w, hstop⟩ := h.stop
  obtain ⟨v, hexpands⟩ := hstop.behind
  obtain ⟨w', hstart⟩ := h'.start
  have hlength := length_slice (m := n + t.text.length) hstart.le
  rw [← Text.slice_append_drop hle, ← Text.slice_append_drop (h.read.stop_le h'.read (by simp))]
    at hexpands
  rw [← Text.slice_append_drop (h.read.stop_le h'.read (by simp))] at hread
  rw [extendOverComment_eq, ← Text.slice_append_drop hle]
  suffices tailLength (Text.slice source (n + t.text.length) n' ++ source.drop n') ≤
      (Text.slice source (n + t.text.length) n').length by omega
  by_cases hbreak : '\n' ∈ Text.slice source (n + t.text.length) n'
  · exact tailLength_le_of_break hbreak
  · have hsame := (h.gap h').resolve_left hbreak
    rw [← hsame] at hexpands hread
    exact tailLength_le hexpands hread h'.read.starts hbreak

-- ---------------------------------------------------------------------------
-- Tokens in their order
-- ---------------------------------------------------------------------------

structure Source.Located (s : Source) (k n m : Nat) : Prop where
  lt_length : k < s.tokens.length
  start : s.offsetAt k = .ok n
  stop : s.endAt k = .ok m

/-- Tokens stand one behind the other within the text, and the comment behind one ends in front of
the next. -/
structure Source.Orderly (s : Source) : Prop where
  exists_located : ∀ k < s.tokens.length, ∃ n m, s.Located k n m
  lt : ∀ {k n m}, s.Located k n m → n < m
  le_length : ∀ {k n m}, s.Located k n m → m ≤ s.text.length
  apart : ∀ {j k n m n' m'}, s.Located j n m → s.Located k n' m' → j < k → m ≤ n'
  comment : ∀ {k n m n' m'}, s.Located k n m → s.Located (k + 1) n' m' →
    extendOverComment s.text m ≤ n'

theorem exists_expand (h : ofSource source = .ok toks) : ∃ text, Escape.expand source = .ok text := by
  unfold ofSource at h
  split at h
  · rename_i text htext
    exact ⟨text, htext⟩
  · cases h
  · cases h

theorem located_of_offset {k : Nat} (hk : toks[k]? = some t)
    (h : (Source.ofTokens source toks).offset t = .ok n) :
    (Source.ofTokens source toks).Located k n (n + t.text.length) :=
  ⟨(List.getElem?_eq_some_iff.mp hk).1, (offsetAt_eq hk).trans h, endAt_of_offset hk h⟩

theorem Source.Located.exists_placed {k m : Nat} (h : (Source.ofTokens source toks).Located k n m)
    (hscan : ofSource source = .ok toks) (hexpand : Escape.expand source = .ok text)
    (hplace : EachInPlace source toks) :
    ∃ t f, toks[k]? = some t ∧ m = n + t.text.length ∧ Placed source text (toks.take k) t n f := by
  obtain ⟨t, hk⟩ : ∃ t, toks[k]? = some t := ⟨_, List.getElem?_eq_getElem h.lt_length⟩
  obtain ⟨n', hoffset, hstands⟩ := hplace _ _ hk
  obtain ⟨-, hstart, hstop⟩ := located_of_offset hk hoffset
  obtain rfl := Except.ok.inj (hstart.symm.trans h.start)
  obtain rfl := Except.ok.inj (hstop.symm.trans h.stop)
  obtain ⟨f, hplaced⟩ := Token.exists_placed hscan hexpand hk hoffset hstands
  exact ⟨_, f, hk, rfl, hplaced⟩

theorem orderly_of_eachInPlace (hscan : ofSource source = .ok toks)
    (hplace : EachInPlace source toks) : (Source.ofTokens source toks).Orderly := by
  obtain ⟨text, hexpand⟩ := exists_expand hscan
  refine ⟨fun k hk => ?_, fun h => ?_, fun h => ?_, fun h h' hlt => ?_, fun h h' => ?_⟩
  · obtain ⟨t, hk⟩ : ∃ t, toks[k]? = some t := ⟨_, List.getElem?_eq_getElem hk⟩
    obtain ⟨n, hoffset, -⟩ := hplace _ _ hk
    exact ⟨_, _, located_of_offset hk hoffset⟩
  · obtain ⟨t, f, -, rfl, hplaced⟩ := h.exists_placed hscan hexpand hplace
    exact Nat.lt_add_of_pos_right hplaced.read.length_pos
  · obtain ⟨t, f, -, rfl, hplaced⟩ := h.exists_placed hscan hexpand hplace
    obtain ⟨w, hstop⟩ := hplaced.stop
    exact hstop.le
  · obtain ⟨t, f, -, rfl, hplaced⟩ := h.exists_placed hscan hexpand hplace
    obtain ⟨t', f', -, -, hplaced'⟩ := h'.exists_placed hscan hexpand hplace
    have := h'.lt_length
    refine hplaced.stop_le hplaced' ?_
    simp only [Source.ofTokens, List.length_take] at this ⊢
    omega
  · obtain ⟨t, f, ht, rfl, hplaced⟩ := h.exists_placed hscan hexpand hplace
    obtain ⟨t', f', -, -, hplaced'⟩ := h'.exists_placed hscan hexpand hplace
    rw [List.take_add_one, ht] at hplaced'
    exact extendOverComment_le hplaced hplaced'

-- ---------------------------------------------------------------------------
-- Spans
-- ---------------------------------------------------------------------------

def InTurn (stop : Int) : Int → List (Nat × Nat) → Prop
  | _, [] => True
  | start, span :: spans => start ≤ span.1 ∧ span.1 < span.2 ∧ span.2 ≤ stop ∧ InTurn stop span.2 spans

/-- A span begins with the first token of its run and holds the tokens of the run and no others.
Behind the last of them it reaches over blanks and one comment on the same line at most. -/
structure Delimits (s : Source) (run : Run) (span : Nat × Nat) : Prop where
  first : ∃ m, s.Located run.first span.1 m
  inside : ∀ k n m, run.first ≤ k → k ≤ run.last → s.Located k n m → span.1 ≤ n ∧ m ≤ span.2
  front : ∀ k n m, k < run.first → s.Located k n m → m ≤ span.1
  behind : ∀ k n m, run.last < k → s.Located k n m → span.2 ≤ n
  tail : ∃ n m tail, s.Located run.last n m ∧ span.2 = m + tail.length ∧
    s.text.drop m = tail ++ s.text.drop span.2 ∧ Trails tail (s.text.drop span.2)

variable {s : Source} {run : Run} {span : Nat × Nat} {k m start stop bodyEnd : Nat}

theorem Source.Located.unique (h : s.Located k n m) (h' : s.Located k n' m') : n = n' ∧ m = m' :=
  ⟨Except.ok.inj (h.start.symm.trans h'.start), Except.ok.inj (h.stop.symm.trans h'.stop)⟩

theorem Source.Orderly.exists_located_of_hasText (h : s.Orderly)
    (hk : Body.HasText s.tokens k texts) : ∃ n m, s.Located k n m := by
  obtain ⟨t, ht, -⟩ := hk
  exact h.exists_located k (List.getElem?_eq_some_iff.mp ht).1

theorem Source.Orderly.le (h : s.Orderly) (hj : s.Located k n m) (hk : s.Located k' n' m')
    (hle : k ≤ k') : n ≤ n' ∧ m ≤ m' := by
  rcases Nat.eq_or_lt_of_le hle with rfl | hlt
  · obtain ⟨rfl, rfl⟩ := hj.unique hk
    exact ⟨le_refl _, le_refl _⟩
  · have := h.lt hj
    have := h.lt hk
    have := h.apart hj hk hlt
    omega

theorem Source.Orderly.delimits (h : s.Orderly) (hrun : run.first ≤ run.last)
    (hlast : run.last + 1 < s.tokens.length) (hspan : s.span run = .ok span) :
    Delimits s run span := by
  obtain ⟨a, a', hfirst⟩ := h.exists_located run.first (by omega)
  obtain ⟨n, m, hend⟩ := h.exists_located run.last (by omega)
  obtain ⟨b, b', hnext⟩ := h.exists_located (run.last + 1) hlast
  obtain rfl : (a, extendOverComment s.text m) = span := by
    rw [Source.span, hfirst.start, hend.stop] at hspan
    exact Except.ok.inj hspan
  have hcomment := h.comment hend hnext
  rw [extendOverComment_eq] at hcomment ⊢
  obtain ⟨tail, rest, htext, hlength, htrails⟩ := exists_trails (s.text.drop m)
  have hrest : s.text.drop (m + tailLength (s.text.drop m)) = rest := by
    rw [← List.drop_drop, ← hlength, htext, List.drop_left]
  refine ⟨⟨a', hfirst⟩, fun k n' m' hk hk' hlocated => ⟨(h.le hfirst hlocated hk).1, ?_⟩,
    fun k n' m' hk hlocated => h.apart hlocated hfirst hk,
    fun k n' m' hk hlocated => hcomment.trans (h.le hnext hlocated hk).1,
    n, m, tail, hend, by rw [hlength], ?_, ?_⟩
  · have := (h.le hlocated hend hk').2
    dsimp only
    omega
  · rw [hrest]
    exact htext
  · rwa [hrest]

theorem delimits_runs (h : s.Orderly) (hruns : Body.Runs s.tokens stop start runs)
    (hstop : stop < s.tokens.length)
    (hspans : List.Forall₂ (fun run span => s.span run = .ok span) runs spans) :
    List.Forall₂ (Delimits s) runs spans := by
  induction hruns generalizing spans with
  | nil =>
    cases hspans
    exact .nil
  | cons _ _ hrun hlast _ _ _ ih =>
    cases hspans with
    | cons hspan hspans => exact .cons (h.delimits hrun (by omega) hspan) (ih hspans)

theorem inTurn_of_runs (h : s.Orderly) (hruns : Body.Runs s.tokens stop i runs)
    (hspans : List.Forall₂ (Delimits s) runs spans) (hclose : s.Located stop bodyEnd m)
    (hfront : ∀ k n m, i ≤ k → s.Located k n m → start ≤ n) : InTurn bodyEnd start spans := by
  induction hruns generalizing spans start with
  | nil =>
    cases hspans
    exact trivial
  | cons hfirst _ hrun hlast _ _ _ ih =>
    cases hspans with
    | cons hspan hspans =>
      obtain ⟨m', hstart⟩ := hspan.first
      obtain ⟨n, m, tail, hend, hlength, -⟩ := hspan.tail
      have hle := (h.le hstart hend hrun).1
      have hlt := h.lt hend
      exact ⟨Int.ofNat_le.mpr (hfront _ _ _ hfirst hstart), by omega,
        Int.ofNat_le.mpr (hspan.behind _ _ _ hlast hclose),
        ih hspans fun k n m hk => hspan.behind k n m hk⟩

theorem InTurn.spans_placesFrom {start stop : Int} (h : InTurn stop start spans) (hzero : 0 ≤ start)
    (hstart : start ≤ source.length) (hstop : stop ≤ source.length) (i : Nat) :
    Layout.Spans source.length start (placesFrom i spans) := by
  induction spans generalizing start i with
  | nil => exact ⟨hzero, hstart⟩
  | cons span spans ih =>
    obtain ⟨hfirst, hlt, hlast, hrest⟩ := h
    exact ⟨hzero, hfirst, Int.ofNat_le.mpr hlt.le,
      ih hrest (Int.natCast_nonneg _) (hlast.trans hstop) (i + 1)⟩

namespace ReadType

variable {text : String}

/-- The members that may move stand at some spans, one behind the other between the start of the
members and the end of the body, and each span holds the tokens of its run. -/
structure Delimited (r : ReadType text) (spans : List (Nat × Nat)) : Prop where
  places : (r.members.filter (·.mayMove)).map Node.place =
    placesFrom r.layout.constants.length spans
  inTurn : InTurn r.header.bodyEnd r.header.membersStart spans
  delimits : List.Forall₂ (Delimits (.ofTokens text.toList r.tokens)) r.body.members spans
  accepted : ∀ ordered start stop,
    Layout.reorder text.toList r.header.membersStart r.movable ordered ≠
      .error (.overlap start stop)

theorem exists_delimited (r : ReadType text)
    (h : (Source.ofTokens text.toList r.tokens).Orderly) : ∃ spans, r.Delimited spans := by
  obtain ⟨spans, hplaces, hspans⟩ := Pair.exists_spans r.laidOut.memberLines.spans
  refine ⟨spans, ?_⟩
  have hmovable := map_snd_movable hplaces
  cases spans with
  | nil =>
    have hnone : r.movable = [] := List.map_eq_nil_iff.mp hmovable
    have hruns : r.body.members = [] := List.forall₂_nil_right_iff.mp hspans
    refine ⟨map_place_movable hplaces, trivial, hruns ▸ .nil, fun ordered start stop => ?_⟩
    exact Layout.reorder_ne_overlap (fun hne => absurd hnone hne) ordered start stop
  | cons span spans =>
    have hne : r.body.members ≠ [] := by
      intro hnil
      rw [hnil] at hspans
      cases hspans
    have hstands := Body.ofTokens_stands r.laidOut.braces r.laidOut.ofTokens hne
    obtain ⟨n, m, hlead⟩ := h.exists_located_of_hasText hstands.lead
    obtain ⟨n', m', hclose⟩ := h.exists_located_of_hasText hstands.closing
    obtain rfl := Except.ok.inj (hlead.stop.symm.trans (r.endAt_lead hstands))
    obtain rfl := Except.ok.inj (hclose.start.symm.trans r.laidOut.bodyEnd)
    have hdelimits := delimits_runs h hstands.runs hclose.lt_length hspans
    have hturn := inTurn_of_runs h hstands.runs hdelimits hclose
      fun k n' m' hk hlocated => h.apart hlead hlocated hk
    refine ⟨map_place_movable hplaces, hturn, hdelimits, fun ordered start stop => ?_⟩
    refine Layout.reorder_ne_overlap (fun _ => ?_) ordered start stop
    rw [hmovable]
    have hend := (h.lt hclose).le.trans (h.le_length hclose)
    exact hturn.spans_placesFrom (Int.natCast_nonneg _) (Int.ofNat_le.mpr (h.le_length hlead))
      (Int.ofNat_le.mpr hend) _

end ReadType

/-- Where every token of a source stands at its offset, the spans of the members that may move are
well formed, and no order of the members is refused for them. -/
theorem readUnit_delimited {text : String} (hread : readUnit text = .ok unit)
    (hscan : Token.ofSource text.toList = .ok toks) (hplace : EachInPlace text.toList toks) :
    ((∃ package, unit = .unit text package []) ∨
      ∃ (r : ReadType text) (others : List Node) (spans : List (Nat × Nat)),
        unit = r.unit others ∧ r.tokens = toks ∧ r.Delimited spans) ∧
    ∀ (o : MemberOrder) start stop, o.reorderUnit unit ≠ .ok (.error (.overlap start stop)) := by
  rcases readUnit_ok hread with ⟨package, rfl⟩ | ⟨r, others, rfl⟩
  · refine ⟨.inl ⟨package, rfl⟩, fun o start stop h => ?_⟩
    cases h
  · obtain rfl : r.tokens = toks := Except.ok.inj (r.scanned.symm.trans hscan)
    obtain ⟨spans, hspans⟩ := r.exists_delimited (orderly_of_eachInPlace hscan hplace)
    refine ⟨.inr ⟨r, others, spans, rfl, rfl, hspans⟩, fun o start stop h => ?_⟩
    rcases MemberOrder.reorderUnit_cases h with hkept | ⟨-, -, hreorder⟩
    · cases hkept
    · exact hspans.accepted _ start stop hreorder

def commentedMembers : String :=
  "// \\u0041\nclass A\x7bint x; // first\n\tvoid b()\x7b\x7d /* second */ void a()\x7bb();\x7d\x7d"

theorem keepsLines_commentedMembers : Escape.KeepsLines commentedMembers.toList := by
  have hcode : Escape.codeOf "0041".toList = .ok 0x41 := by rfl
  have hsplit : commentedMembers.toList = "// ".toList ++ ('\\' :: 'u' :: ([] ++ ("0041".toList ++
      ("\nclass A\x7bint x; // first\n" ++
        "\tvoid b()\x7b\x7d /* second */ void a()\x7bb();\x7d\x7d").toList))) := by
    decide
  rw [hsplit]
  exact ⟨_, false, (Escape.Expands.of_after (by decide)).append (v := false) (.escape (by simp)
    (by decide) (by decide) (by decide) hcode (by decide) (.of_after (by decide)))⟩

theorem readUnit_delimited_commented :
    ∃ (toks : List Token) (r : ReadType commentedMembers) (others : List Node)
      (spans : List (Nat × Nat)),
      readUnit commentedMembers = .ok (r.unit others) ∧
      Token.ofSource commentedMembers.toList = .ok toks ∧
      EachInPlace commentedMembers.toList toks ∧ r.tokens = toks ∧ r.Delimited spans ∧
      (r.members.filter (·.mayMove)).map Node.place = [⟨18, 33, 0⟩, ⟨35, 58, 1⟩, ⟨59, 73, 2⟩] := by
  have hscanned : ((Token.ofSource commentedMembers.toList).toOption.any fun toks =>
      (List.range toks.length).all fun k => toks[k]?.any fun t =>
        decide (BreaksBeside (toks.take k) t) &&
          ((Text.lineStarts commentedMembers.toList)[t.position.line - 1]?).any fun start =>
            decide (Escape.Free (commentedMembers.toList.drop start))) = true := by
    decide +kernel
  simp only [Option.any_eq_true, List.all_eq_true, List.mem_range, Bool.and_eq_true,
    decide_eq_true_eq] at hscanned
  obtain ⟨toks, htoks, hfree⟩ := hscanned
  have htoks := toOption_eq_some htoks
  have hplace := eachInPlace_of_free keepsLines_commentedMembers htoks fun k t hk => by
    obtain ⟨t', hk', hbeside, hstart⟩ := hfree k (List.getElem?_eq_some_iff.mp hk).1
    cases hk.symm.trans hk'
    exact ⟨hbeside, hstart⟩
  obtain ⟨unit, top, body, hread, htop, hbody, hplaces⟩ := exists_of_readBody? commentedMembers
    (fun _ body => (body.filter (·.mayMove)).map Node.place =
      [⟨18, 33, 0⟩, ⟨35, 58, 1⟩, ⟨59, 73, 2⟩]) (by decide +kernel)
  obtain ⟨package, rfl⟩ | ⟨r, others, spans, rfl, htokens, hspans⟩ :=
    (readUnit_delimited hread htoks hplace).1
  · cases htop
  · cases htop
    cases hbody
    exact ⟨toks, r, others, spans, hread, htoks, hplace, htokens, hspans, hplaces⟩

/-- A source whose comment ends in an escape, with another comment behind it. -/
def endedByEscape : String :=
  "class A\x7bvoid b()\x7b\x7d /* *\\u002fu002f/**/\nx;\x7d"

/-- The text of every token is found at its offset, yet the comment behind a method, which goes on
up to another mark in the source, reaches over the field behind it. -/
theorem overlap_of_escape :
    ∃ unit toks outcome, readUnit endedByEscape = .ok unit ∧
      Token.ofSource endedByEscape.toList = .ok toks ∧
      (∀ t ∈ toks, ∃ n, (Source.ofTokens endedByEscape.toList toks).offset t = .ok n ∧
        Text.slice endedByEscape.toList n (n + t.text.length) = t.text.toList) ∧
      Sorter.preferred.sortSource {} none endedByEscape = .ok outcome ∧
      outcome.skipped = some (.overlap 24 41) := by
  have h : ((readUnit endedByEscape).toOption.any fun _ =>
      (Token.ofSource endedByEscape.toList).toOption.any fun toks =>
        (Sorter.preferred.sortSource {} none endedByEscape).toOption.any fun outcome =>
          (toks.all fun t =>
            ((Source.ofTokens endedByEscape.toList toks).offset t).toOption.any fun n =>
              decide (Text.slice endedByEscape.toList n (n + t.text.length) = t.text.toList)) &&
          decide (outcome.skipped = some (.overlap 24 41))) = true := by
    decide +kernel
  simp only [Option.any_eq_true, List.all_eq_true, Bool.and_eq_true, decide_eq_true_eq] at h
  obtain ⟨unit, hread, toks, htoks, outcome, hsort, hplace, hskipped⟩ := h
  refine ⟨unit, toks, outcome, toOption_eq_some hread, toOption_eq_some htoks, fun t ht => ?_,
    toOption_eq_some hsort, hskipped⟩
  obtain ⟨n, hoffset, hslice⟩ := hplace t ht
  exact ⟨n, toOption_eq_some hoffset, hslice⟩

end CallerFirst.Java
