import CallerFirst.Layout
import CallerFirst.Proofs.Java.Body
import CallerFirst.Proofs.Java.Span
import CallerFirst.Proofs.Java.Token.Offset
import CallerFirst.Proofs.Java.Token.Parts
import CallerFirst.Proofs.Slices

/-!
# The text of members

`members_of_runs`: members stand one behind the other in the text. The text of each ends in its last
token or in a comment behind it, and between one and the next there is nothing but blanks, comments
and semicolons.
-/

namespace CallerFirst.Java

open Token Source Body

variable {source : List Char} {tokens : List Token} {t : Token} {i j k m n start stop : Nat}

-- ---------------------------------------------------------------------------
-- Semicolons and braces
-- ---------------------------------------------------------------------------

structure Scanned (source : List Char) (tokens : List Token) : Prop where
  scan : Token.scan source = .ok tokens
  breaks : ∀ t ∈ tokens, '\n' ∉ t.text.toList

theorem offsetAt_eq (ht : tokens[k]? = some t) :
    (Source.ofTokens source tokens).offsetAt k = (Source.ofTokens source tokens).offset t := by
  simp [offsetAt, Source.ofTokens, List.getD_eq_getElem?_getD, ht]

theorem endAt_eq_ok (ht : tokens[k]? = some t) (h : (Source.ofTokens source tokens).endAt k = .ok m) :
    ∃ n, (Source.ofTokens source tokens).offsetAt k = .ok n ∧ m = n + t.text.length := by
  simp only [endAt, bind_eq_ok, Source.ofTokens, List.getD_eq_getElem?_getD, ht,
    Option.getD_some] at h
  obtain ⟨n, hn, h⟩ := h
  cases h
  exact ⟨n, (offsetAt_eq ht).trans hn, rfl⟩

theorem endAt_of_offset (ht : tokens[k]? = some t)
    (h : (Source.ofTokens source tokens).offset t = .ok n) :
    (Source.ofTokens source tokens).endAt k = .ok (n + t.text.length) := by
  simp only [endAt, Source.ofTokens, List.getD_eq_getElem?_getD, ht, Option.getD_some] at h ⊢
  rw [h]
  rfl

theorem Scanned.readAt (h : Scanned source tokens) (ht : tokens[k]? = some t)
    (hn : (Source.ofTokens source tokens).offsetAt k = .ok n) :
    ReadAt source (tokens.take k) t n := by
  obtain ⟨m, hm⟩ := exists_readAt h.scan h.breaks ht
  cases (hm.offset tokens).symm.trans ((offsetAt_eq ht).symm.trans hn)
  exact hm

structure StopAt (source : List Char) (tokens : List Token) (k n : Nat) (x : Char) : Prop where
  isStop : isStop x = true
  drop_eq : source.drop n = x :: source.drop (n + 1)
  reads : Reads source ((tokens.take k).map lexeme) (source.drop n)
  starts : StartsToken (source.drop n)
  lexemes : (tokens.take (k + 1)).map lexeme =
    (tokens.take k).map lexeme ++ [(.separator, String.ofList [x])]

theorem Token.ReadAt.stopAt {x : Char} (h : ReadAt source (tokens.take k) t n)
    (ht : tokens[k]? = some t) (htext : t.text = String.ofList [x]) (hx : isStop x = true) :
    StopAt source tokens k n x := by
  have hlength : t.text.length = 1 := by simp [htext]
  obtain ⟨rest, hrest⟩ : ∃ rest, source.drop n = x :: rest := by
    have htake := h.text
    rw [hlength, htext, String.toList_ofList] at htake
    cases hdrop : source.drop n with
    | nil => simp [hdrop] at htake
    | cons c rest =>
      rw [hdrop] at htake
      exact ⟨rest, by simpa using htake⟩
  have hbehind : source.drop (n + 1) = rest := by
    rw [← List.drop_drop, hrest]
    rfl
  have hread := h.reads_token
  rw [hlength, hbehind, hrest] at hread
  obtain ⟨vs, hvs, -⟩ := hread.linear (solid_separator hx rest) (le_refl _)
  refine ⟨hx, hbehind.symm ▸ hrest, h.reads, h.starts, ?_⟩
  have hlexeme : t.lexeme = (.separator, String.ofList [x]) := (List.cons.inj hvs).1.symm
  rw [List.take_add_one, ht, List.map_append, Option.toList_some, List.map_singleton, hlexeme]

theorem exists_isStop {s : String} (h : s ∈ [";", "\x7b", "\x7d"]) :
    ∃ x, isStop x = true ∧ s = String.ofList [x] := by
  simp only [List.mem_cons, List.not_mem_nil, or_false] at h
  rcases h with rfl | rfl | rfl
  · exact ⟨';', rfl, rfl⟩
  · exact ⟨'\x7b', rfl, rfl⟩
  · exact ⟨'\x7d', rfl, rfl⟩

theorem Scanned.stopAt (h : Scanned source tokens) (hk : HasText tokens k texts)
    (htexts : texts ⊆ [";", "\x7b", "\x7d"])
    (hn : (Source.ofTokens source tokens).offsetAt k = .ok n) :
    ∃ x, StopAt source tokens k n x := by
  obtain ⟨t, ht, htext⟩ := hk
  obtain ⟨x, hx, heq⟩ := exists_isStop (htexts htext)
  exact ⟨x, (h.readAt ht hn).stopAt ht heq hx⟩

theorem Scanned.stopAt_of_endAt (h : Scanned source tokens) (hk : HasText tokens k texts)
    (htexts : texts ⊆ [";", "\x7b", "\x7d"])
    (hm : (Source.ofTokens source tokens).endAt k = .ok m) :
    ∃ n x, m = n + 1 ∧ StopAt source tokens k n x := by
  obtain ⟨t, ht, htext⟩ := hk
  obtain ⟨x, hx, heq⟩ := exists_isStop (htexts htext)
  obtain ⟨n, hn, rfl⟩ := endAt_eq_ok ht hm
  exact ⟨n, x, by simp [heq], (h.readAt ht hn).stopAt ht heq hx⟩

theorem Scanned.map_semicolons (h : Scanned source tokens) (hkj : k ≤ j)
    (hsemicolons : ∀ i, k ≤ i → i < j → HasText tokens i [";"]) :
    (tokens.take j).map lexeme =
      (tokens.take k).map lexeme ++ List.replicate (j - k) semicolon := by
  induction j, hkj using Nat.le_induction with
  | base => simp
  | succ j hkj ih =>
    obtain ⟨t, ht, htext⟩ := hsemicolons j hkj (Nat.lt_succ_self j)
    obtain ⟨n, hn⟩ := exists_readAt h.scan h.breaks ht
    have hstop := hn.stopAt ht (List.mem_singleton.mp htext : t.text = String.ofList [';']) rfl
    rw [hstop.lexemes, ih fun i hi hlt => hsemicolons i hi (by omega), Nat.succ_sub hkj,
      List.replicate_succ', List.append_assoc]
    rfl

theorem StopAt.lt_length (h : StopAt source tokens k n x) : n < source.length := by
  have := congrArg List.length h.drop_eq
  simp only [List.length_drop, List.length_cons] at this
  omega

theorem StopAt.reads_behind (h : StopAt source tokens k n x) :
    Reads source ((tokens.take (k + 1)).map lexeme) (source.drop (n + 1)) := by
  rw [h.lexemes]
  exact h.reads.trans (h.drop_eq ▸ solid_separator h.isStop _)

theorem StopAt.take_eq (h : StopAt source tokens k n x) :
    source.take (n + 1) = source.take n ++ [x] := by
  have hget : source[n]? = some x := by
    have := congrArg List.head? h.drop_eq
    rwa [List.head?_drop] at this
  rw [List.take_add_one, hget, Option.toList_some]

theorem StopAt.getLast? (h : StopAt source tokens k n x) :
    (source.take (n + 1)).getLast? = some x := by
  rw [h.take_eq, List.getLast?_concat]

theorem StopAt.ended (h : StopAt source tokens k n x) :
    Ended (source.take (n + 1)) ((tokens.take (k + 1)).map lexeme) := by
  refine ⟨source.take n, x, _, h.take_eq, h.isStop, h.lexemes, fun y => ?_⟩
  have hreads := h.reads
  rw [h.drop_eq] at hreads
  nth_rewrite 1 [← List.take_append_drop n source] at hreads
  rw [h.drop_eq] at hreads
  exact hreads.stop h.isStop y

-- ---------------------------------------------------------------------------
-- Between members
-- ---------------------------------------------------------------------------

/-- Reading comes to an offset behind the first `k` tokens, or to a line comment that reaches up to
it. -/
inductive Arrives (source : List Char) (tokens : List Token) (k n : Nat) : Prop
  | closed (hreads : Reads source ((tokens.take k).map lexeme) (source.drop n))
      (hlast : (source.take n).getLast? ≠ some '\\')
  | comment {body : List Char} (hbody : '\n' ∉ body) (hend : LineEnd (source.drop n))
      (hreads : Reads source ((tokens.take k).map lexeme) ('/' :: '/' :: (body ++ source.drop n)))

/-- What stands between two offsets in front of a member or the closing brace. -/
structure Lead (source : List Char) (n m : Nat) : Prop where
  le : n ≤ m
  filler : Filler (Text.slice source n m)
  begins : (source.take n).getLast? ≠ some '\\' ∨
    ∃ c ∈ (Text.slice source n m).head?, Layout.isGapChar c = true

theorem lead_of_reads (hle : n ≤ m) (hm : StartsToken (source.drop m))
    (hreads : Reads (source.drop n) (List.replicate k semicolon) (source.drop m)) :
    Filler (Text.slice source n m) := by
  obtain ⟨c, rest, -, -, hdrop, -⟩ := hm
  rw [← Text.slice_append_drop hle] at hreads
  exact filler_of_reads (by simp [hdrop]) hreads

structure GoesOn (source : List Char) (tokens : List Token) (k n : Nat) (w : List Char) : Prop where
  blank : ∀ c ∈ w, Text.isBlank c = true
  begins : (source.take n).getLast? ≠ some '\\' ∨ ∃ c ∈ w.head?, Layout.isGapChar c = true
  drop_eq : source.drop n = w ++ source.drop (n + w.length)
  reads : Reads source ((tokens.take k).map lexeme) (source.drop (n + w.length))

theorem Arrives.exists_goesOn (h : Arrives source tokens k n)
    (hreads : Reads source ts (source.drop m)) (hk : ((tokens.take k).map lexeme).length ≤ ts.length)
    (hm : StartsToken (source.drop m)) : ∃ w, GoesOn source tokens k n w := by
  cases h with
  | closed hclosed hlast => exact ⟨[], by simp, .inl hlast, rfl, hclosed⟩
  | @comment body hbody hend hcomment =>
    -- a comment up to the end of the text leaves no room for the token
    have hnot : ¬Reads ('/' :: '/' :: (body ++ source.drop n)) [] [] := by
      intro hall
      have hle := (hcomment.trans hall).le_of_startsToken hreads (by simpa using hk) hm
      obtain ⟨c, rest, -, -, hdrop, -⟩ := hm
      simp [hdrop] at hle
    have hline (u v : List Char) (hu : '\n' ∉ u) (heq : body ++ source.drop n = u ++ '\n' :: v) :
        Reads source ((tokens.take k).map lexeme) v := by
      rw [heq] at hcomment
      simpa using hcomment.trans (reads_line hu v)
    have hbehind (w v : List Char) (heq : source.drop n = w ++ v) :
        source.drop (n + w.length) = v := by
      rw [← List.drop_drop, heq, List.drop_left]
    have hblank : Text.isBlank '\n' = true ∧ Text.isBlank '\r' = true := by
      constructor <;> decide
    rcases hend with hnil | hnil | ⟨v, hv | hv⟩
    · exact absurd (reads_to_end (by simp [hbody, hnil])) hnot
    · exact absurd (reads_to_end (by simp [hbody, hnil])) hnot
    · have hdrop := hbehind ['\n'] v hv
      exact ⟨['\n'], by simp [hblank], .inr ⟨_, rfl, rfl⟩, hdrop.symm ▸ hv, hdrop.symm ▸ hline body v hbody (by rw [hv])⟩
    · have hdrop := hbehind ['\r', '\n'] v hv
      exact ⟨['\r', '\n'], by simp [hblank], .inr ⟨_, rfl, rfl⟩, hdrop.symm ▸ hv,
        hdrop.symm ▸ hline (body ++ ['\r']) v (by simp [hbody]) (by simp [hv])⟩

theorem Arrives.lead (h : Arrives source tokens k n) (hscanned : Scanned source tokens)
    (hreads : Reads source ((tokens.take j).map lexeme) (source.drop m))
    (hm : StartsToken (source.drop m)) (hkj : k ≤ j)
    (hsemicolons : ∀ i, k ≤ i → i < j → HasText tokens i [";"]) : Lead source n m := by
  have htokens := hscanned.map_semicolons hkj hsemicolons
  have hlength : ((tokens.take k).map lexeme).length ≤ ((tokens.take j).map lexeme).length := by
    rw [htokens, List.length_append]
    omega
  obtain ⟨w, hw⟩ := h.exists_goesOn hreads hlength hm
  have hshort := hw.reads.le_of_startsToken hreads hlength hm
  have hle : n + w.length ≤ m := by
    obtain ⟨c, rest, -, -, hdrop, -⟩ := id hm
    have := congrArg List.length hdrop
    simp only [List.length_drop, List.length_cons] at this hshort
    omega
  obtain ⟨vs, hvs, hrest⟩ := hw.reads.linear hreads hshort
  obtain rfl := List.append_cancel_left (htokens.symm.trans hvs)
  have hslice : Text.slice source n m = w ++ Text.slice source (n + w.length) m := by
    have := Text.slice_append_drop (by omega : n ≤ m) source
    rw [hw.drop_eq, ← Text.slice_append_drop hle source, ← List.append_assoc] at this
    exact List.append_cancel_right this
  refine ⟨by omega, ?_, hw.begins.imp id ?_⟩
  · rw [hslice]
    exact (filler_blanks hw.blank).append (lead_of_reads hle hm hrest)
  · rintro ⟨c, hc, hgap⟩
    refine ⟨c, ?_, hgap⟩
    rw [hslice, List.head?_append, Option.mem_def.mp hc]
    rfl

-- ---------------------------------------------------------------------------
-- Members
-- ---------------------------------------------------------------------------

def Run.lexemes (tokens : List Token) (run : Run) : List Lexeme :=
  (Text.slice tokens run.first (run.last + 1)).map lexeme

theorem ended_of_stopAt {run : Run} (hfirst : ReadAt source (tokens.take run.first) t start)
    (hlast : StopAt source tokens run.last n x) (hrun : run.first ≤ run.last) :
    start ≤ n ∧ Ended (Text.slice source start (n + 1)) (run.lexemes tokens) := by
  have htake {j : Nat} (hj : run.first ≤ j) : (tokens.take j).map lexeme =
      (tokens.take run.first).map lexeme ++ (Text.slice tokens run.first j).map lexeme := by
    rw [← List.map_append, Text.slice, ← Nat.min_eq_left hj, ← List.take_take, Nat.min_eq_left hj,
      List.take_append_drop]
  have hshort := hfirst.reads.le_of_startsToken hlast.reads
    (by rw [htake hrun, List.length_append]; omega) hlast.starts
  have hlt := hlast.lt_length
  have hle : start ≤ n := by
    simp only [List.length_drop] at hshort
    omega
  obtain ⟨vs, hvs, hreads⟩ := hfirst.reads.linear hlast.reads hshort
  obtain rfl := List.append_cancel_left ((htake hrun).symm.trans hvs)
  have hown : Text.slice source start (n + 1) = Text.slice source start n ++ [x] := by
    have := Text.slice_append_drop (by omega : start ≤ n + 1) source
    rw [← Text.slice_append_drop hle source, hlast.drop_eq, List.append_cons] at this
    exact List.append_cancel_right this
  refine ⟨hle, Text.slice source start n, x, (Text.slice tokens run.first run.last).map lexeme, hown,
    hlast.isStop, ?_, fun y => ?_⟩
  · have hlexemes := hlast.lexemes
    rw [htake (by omega : run.first ≤ run.last + 1), htake hrun, List.append_assoc] at hlexemes
    exact List.append_cancel_left hlexemes
  · rw [← Text.slice_append_drop hle source, hlast.drop_eq] at hreads
    exact hreads.stop hlast.isStop y

theorem exists_tail (hlast : StopAt source tokens j n x) (hclose : StopAt source tokens l m y)
    (hjl : j < l) (hstop : stop = extendOverComment source (n + 1)) :
    ∃ tail, stop = n + 1 + tail.length ∧ source.drop (n + 1) = tail ++ source.drop stop ∧
      (Solid tail [] ∨ LineComment tail) ∧ (tail.getLast? = some '\\' → LineComment tail) ∧
      Arrives source tokens (j + 1) stop := by
  obtain ⟨tail, rest, htext, hlength, hcases⟩ := tail_cases (source.drop (n + 1))
  rw [extendOverComment_eq, ← hlength] at hstop
  have hrest : source.drop stop = rest := by rw [hstop, ← List.drop_drop, htext, List.drop_left]
  have htake : source.take stop = source.take (n + 1) ++ tail := by
    rw [hstop, List.take_add, htext, List.take_left]
  have hreads := hlast.reads_behind
  have hx : x ≠ '\\' := by
    rintro rfl
    exact absurd hlast.isStop (by decide)
  subst hrest
  refine ⟨tail, hstop, htext, ?_⟩
  rcases hcases with rfl | ⟨hread, hslash⟩ | ⟨⟨w, body, rfl, hw, hbody⟩, hend⟩
  · refine ⟨.inl solid_nil, by simp, .closed ?_ ?_⟩
    · rwa [htext] at hreads
    · rw [htake, List.append_nil, hlast.getLast?]
      simpa using hx
  · have hbehind := hreads.trans hread
    rw [List.append_nil] at hbehind
    have hne : source.drop stop ≠ [] := by
      have hle := hbehind.le_of_startsToken hclose.reads (by simp; omega) hclose.starts
      intro hnil
      rw [hnil, hclose.drop_eq] at hle
      simp at hle
    rw [htext] at hread
    refine ⟨.inl (solid_of_semicolons (k := 0) hne hread), by simp [hslash], .closed hbehind ?_⟩
    rw [htake, List.getLast?_append, hslash]
    simp
  · have hcomment : LineComment (w ++ '/' :: '/' :: body) := ⟨w, body, rfl, hw, hbody⟩
    refine ⟨.inr hcomment, fun _ => hcomment, .comment hbody hend ?_⟩
    rw [htext] at hreads
    simp only [List.append_assoc, List.cons_append] at hreads
    simpa using hreads.trans (reads_blanks hw _)

structure MemberAt (source : List Char) (n start stop : Nat) (ts : List Lexeme) : Prop where
  lead : Lead source n start
  le : start ≤ stop
  stop_le : stop ≤ source.length
  head : ∃ own tail, Head (Text.slice source start stop) ts own tail
  waits : (Text.slice source start stop).getLast? = some '\\' →
    EndsInComment (Text.slice source start stop)

theorem Arrives.memberAt {run : Run} (h : Arrives source tokens k n)
    (hscanned : Scanned source tokens) (hclose : StopAt source tokens l m y)
    (hl : l ≤ tokens.length) (hk : k ≤ run.first)
    (hsemicolons : ∀ i, k ≤ i → i < run.first → HasText tokens i [";"])
    (hrun : run.first ≤ run.last) (hlt : run.last < l)
    (hend : HasText tokens run.last [";", "\x7d"])
    (hspan : (Source.ofTokens source tokens).span run = .ok (start, stop)) :
    MemberAt source n start stop (run.lexemes tokens) ∧
      Arrives source tokens (run.last + 1) stop := by
  simp only [span, bind_eq_ok] at hspan
  obtain ⟨start', hstart, last, hendAt, heq⟩ := hspan
  obtain ⟨rfl, hstop⟩ := Prod.mk.inj (Except.ok.inj heq)
  have hfirst : run.first < tokens.length := by omega
  have hread := hscanned.readAt (List.getElem?_eq_getElem hfirst) hstart
  obtain ⟨e, x, rfl, hlast⟩ := hscanned.stopAt_of_endAt hend (by simp) hendAt
  obtain ⟨hle, hended⟩ := ended_of_stopAt hread hlast hrun
  obtain ⟨tail, rfl, htext, hcomment, hwaits, harrives⟩ := exists_tail hlast hclose hlt hstop.symm
  have hbody : Text.slice source start' (e + 1 + tail.length) =
      Text.slice source start' (e + 1) ++ tail := by
    have := Text.slice_append_drop (by omega : start' ≤ e + 1 + tail.length) source
    rw [← Text.slice_append_drop (by omega : start' ≤ e + 1) source, htext, ← List.append_assoc]
      at this
    exact List.append_cancel_right this
  have hhead : Head (Text.slice source start' (e + 1 + tail.length)) (run.lexemes tokens)
      (Text.slice source start' (e + 1)) tail := ⟨hbody, hended, hcomment⟩
  refine ⟨⟨?_, by omega, ?_, ⟨_, _, hhead⟩, fun hbackslash => hhead.endsInComment (hwaits ?_)⟩,
    harrives⟩
  · exact h.lead hscanned hread.reads hread.starts hk hsemicolons
  · have := congrArg List.length htext
    simp only [List.length_drop, List.length_append] at this
    have := hlast.lt_length
    omega
  · obtain ⟨u, z, us, hown, hz, -⟩ := hended
    rw [hbody, hown, List.getLast?_append, List.getLast?_concat] at hbackslash
    cases htail : tail.getLast? with
    | some c => simpa [htail] using hbackslash
    | none =>
      obtain rfl : z = '\\' := by simpa [htail] using hbackslash
      exact absurd hz (by decide)

/-- Members behind an offset, one behind the other, up to the closing brace. -/
inductive Members (source : List Char) (bodyEnd : Nat) :
    Nat → List (Nat × Nat) → List (List Lexeme) → Prop
  | nil {n : Nat} (hlead : Lead source n bodyEnd) : Members source bodyEnd n [] []
  | cons {n start stop : Nat} {ts spans tss} (hmember : MemberAt source n start stop ts)
      (hrest : Members source bodyEnd stop spans tss) :
      Members source bodyEnd n ((start, stop) :: spans) (ts :: tss)

theorem members_of_runs (hruns : Runs tokens l k runs) (hscanned : Scanned source tokens)
    (hclose : StopAt source tokens l m y) (hl : l ≤ tokens.length) (hkl : k ≤ l)
    (harrives : Arrives source tokens k n)
    (hspans : List.Forall₂ (fun run s => (Source.ofTokens source tokens).span run = .ok s) runs
      spans) :
    Members source m n spans (runs.map (Run.lexemes tokens)) := by
  induction hruns generalizing n spans with
  | nil hempty =>
    cases hspans
    exact .nil (harrives.lead hscanned hclose.reads hclose.starts hkl hempty)
  | cons hfirst hempty hrun hlast hend hnext hrest ih =>
    cases hspans with
    | cons hspan hspans =>
      obtain ⟨hmember, harrives⟩ :=
        harrives.memberAt hscanned hclose hl hfirst hempty hrun hlast hend hspan
      exact .cons hmember (ih (by omega) harrives hspans)

end CallerFirst.Java
