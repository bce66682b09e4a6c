import CallerFirst.Java.Span
import CallerFirst.Proofs.Java.Token.Reads

/-!
# The comment behind a member

`tail_cases`: a member reaches over nothing, over a comment that is closed, or over a line comment up
to the end of its line.
-/

namespace CallerFirst.Java.Source

open Token

def tailLength (text : List Char) : Nat :=
  let blanks := (text.takeWhile fun c => c == ' ' || c == '\t').length
  match commentLength? (text.drop blanks) with
  | some n => blanks + n
  | none => 0

theorem extendOverComment_eq (text : List Char) (stop : Nat) :
    extendOverComment text stop = stop + tailLength (text.drop stop) := by
  unfold extendOverComment tailLength
  dsimp only
  split <;> simp_all [Nat.add_assoc]

theorem blockEnd?_of_find? (h : Text.find? ['*', '/'] r = some n) : blockEnd? r = some (n + 2) := by
  induction r generalizing n with
  | nil => simp [Text.find?] at h
  | cons c r ih =>
    have hstart : ['*', '/'].isPrefixOf (c :: r) = true ↔ c = '*' ∧ r.head? = some '/' := by
      cases r with
      | nil => simp [List.isPrefixOf]
      | cons d r =>
        simp only [List.isPrefixOf, Bool.and_eq_true, beq_iff_eq, and_true, List.head?_cons,
          Option.some.injEq]
        exact and_congr eq_comm eq_comm
    rw [blockEnd?_cons]
    unfold Text.find? at h
    split at h
    · rename_i hp
      cases h
      rw [if_pos (hstart.mp hp)]
    · rename_i hp
      obtain ⟨m, hm, rfl⟩ := Option.map_eq_some_iff.mp h
      rw [if_neg (hstart.not.mp hp), ih hm]
      rfl

theorem exists_of_blockEnd? (h : blockEnd? r = some n) :
    ∃ body rest, r = body ++ '*' :: '/' :: rest ∧ n = body.length + 2 := by
  induction r generalizing n with
  | nil => cases h
  | cons c r ih =>
    rw [blockEnd?_cons] at h
    split at h
    · rename_i hend
      cases h
      obtain ⟨rest, rfl⟩ := exists_of_head? hend.2
      exact ⟨[], rest, by rw [hend.1]; rfl, rfl⟩
    · obtain ⟨m, hm, rfl⟩ := Option.map_eq_some_iff.mp h
      obtain ⟨body, rest, rfl, rfl⟩ := ih hm
      exact ⟨c :: body, rest, rfl, rfl⟩

def LineEnd (rest : List Char) : Prop :=
  rest = [] ∨ rest = ['\r'] ∨ ∃ v, rest = '\n' :: v ∨ rest = '\r' :: '\n' :: v

theorem exists_line (r : List Char) :
    ∃ line rest, r = line ++ rest ∧ r.takeWhile (· != '\n') = line ∧ '\n' ∉ line ∧
      (rest = [] ∨ ∃ v, rest = '\n' :: v) := by
  have hall {u : List Char} (hu : '\n' ∉ u) : ∀ c ∈ u, (c != '\n') = true := fun c hc => by
    simpa using fun (heq : c = '\n') => hu (heq ▸ hc)
  by_cases hr : '\n' ∈ r
  · obtain ⟨u, v, rfl, hu⟩ := List.eq_append_cons_of_mem hr
    refine ⟨u, '\n' :: v, rfl, ?_, hu, .inr ⟨v, rfl⟩⟩
    rw [takeWhile_stop (by simp), List.takeWhile_eq_self_iff.mpr (hall hu)]
  · exact ⟨r, [], by simp, List.takeWhile_eq_self_iff.mpr (hall hr), hr, .inl rfl⟩

theorem commentLength?_line (r : List Char) :
    ∃ body rest, r = body ++ rest ∧ commentLength? ('/' :: '/' :: r) = some (2 + body.length) ∧
      '\n' ∉ body ∧ LineEnd rest := by
  obtain ⟨line, rest, rfl, htake, hline, hrest⟩ := exists_line r
  have hlength : commentLength? ('/' :: '/' :: (line ++ rest)) =
      some (if ('/' :: '/' :: line).getLast? == some '\r' then ('/' :: '/' :: line).length - 1
        else ('/' :: '/' :: line).length) := by
    simp [commentLength?, htake]
  rw [hlength]
  rcases List.eq_nil_or_concat line with rfl | ⟨body, c, rfl⟩
  · refine ⟨[], rest, rfl, by simp, List.not_mem_nil, ?_⟩
    rcases hrest with rfl | ⟨v, rfl⟩
    · exact .inl rfl
    · exact .inr (.inr ⟨v, .inl rfl⟩)
  · by_cases hc : c = '\r'
    · subst hc
      refine ⟨body, '\r' :: rest, by simp, ?_, by simpa using hline, ?_⟩
      · simp only [List.concat_eq_append, List.getLast?_cons, List.getLast?_append,
          List.length_cons, List.length_append]
        simp
        omega
      · rcases hrest with rfl | ⟨v, rfl⟩
        · exact .inr (.inl rfl)
        · exact .inr (.inr ⟨v, .inr rfl⟩)
    · refine ⟨body ++ [c], rest, by simp, ?_, by simpa using hline, ?_⟩
      · simp [List.getLast?_cons, hc]
        omega
      · rcases hrest with rfl | ⟨v, rfl⟩
        · exact .inl rfl
        · exact .inr (.inr ⟨v, .inl rfl⟩)

theorem commentLength?_block (h : commentLength? ('/' :: '*' :: r) = some n) :
    ∃ body rest, r = body ++ '*' :: '/' :: rest ∧ n = body.length + 4 ∧ '\n' ∉ body ∧
      blockEnd? (body ++ ['*', '/']) = some (body.length + 2) := by
  unfold commentLength? at h
  simp only at h
  split at h
  · rename_i m hm
    have hend := blockEnd?_of_find? hm
    obtain ⟨body, rest, rfl, hlength⟩ := exists_of_blockEnd? hend
    obtain rfl : m = body.length := by omega
    split at h
    · cases h
    · rename_i hbreak
      cases h
      refine ⟨body, rest, rfl, rfl, by simpa using hbreak, ?_⟩
      rw [← List.append_nil (body ++ ['*', '/'])]
      exact blockEnd?_append (y := rest) (by simpa using hend) (by simp) []
  · cases h

/-- What a member reaches over: nothing, or blanks and one comment on the same line. A line comment
reaches up to the end of the line, and a block comment up to its closing mark. -/
inductive Trails : List Char → List Char → Prop
  | nothing {rest} : Trails [] rest
  | line {w body rest} (hw : ∀ c ∈ w, c = ' ' ∨ c = '\t') (hbody : '\n' ∉ body)
      (hrest : LineEnd rest) : Trails (w ++ '/' :: '/' :: body) rest
  | block {w body rest} (hw : ∀ c ∈ w, c = ' ' ∨ c = '\t') (hbody : '\n' ∉ body)
      (hend : blockEnd? (body ++ ['*', '/']) = some (body.length + 2)) :
      Trails (w ++ '/' :: '*' :: (body ++ ['*', '/'])) rest

theorem exists_trails (text : List Char) :
    ∃ tail rest, text = tail ++ rest ∧ tail.length = tailLength text ∧ Trails tail rest := by
  have hw : ∀ c ∈ text.takeWhile (fun c => c == ' ' || c == '\t'), c = ' ' ∨ c = '\t' := by
    intro c hc
    simpa using List.mem_takeWhile_imp hc
  have hdrop : text.drop (text.takeWhile fun c => c == ' ' || c == '\t').length =
      text.dropWhile fun c => c == ' ' || c == '\t' :=
    (congrArg (List.drop _) List.takeWhile_append_dropWhile.symm).trans List.drop_left
  have hsplit : text = text.takeWhile (fun c => c == ' ' || c == '\t') ++
      text.dropWhile (fun c => c == ' ' || c == '\t') := List.takeWhile_append_dropWhile.symm
  unfold tailLength
  dsimp only
  rw [hdrop]
  generalize text.takeWhile (fun c => c == ' ' || c == '\t') = w at hw hsplit
  generalize text.dropWhile (fun c => c == ' ' || c == '\t') = v at hsplit
  subst hsplit
  cases hlength : commentLength? v with
  | none => exact ⟨[], _, rfl, rfl, .nothing⟩
  | some n =>
    obtain ⟨r, rfl⟩ | ⟨r, rfl⟩ : (∃ r, v = '/' :: '/' :: r) ∨ ∃ r, v = '/' :: '*' :: r := by
      unfold commentLength? at hlength
      split at hlength
      · exact .inl ⟨_, rfl⟩
      · exact .inr ⟨_, rfl⟩
      · cases hlength
    · obtain ⟨body, rest, rfl, hbody, hbreak, hrest⟩ := commentLength?_line r
      cases hlength.symm.trans hbody
      refine ⟨w ++ '/' :: '/' :: body, rest, by simp, ?_, .line hw hbreak hrest⟩
      simp only [List.length_append, List.length_cons]
      omega
    · obtain ⟨body, rest, rfl, rfl, hbreak, hend⟩ := commentLength?_block hlength
      refine ⟨w ++ '/' :: '*' :: (body ++ ['*', '/']), rest, by simp, ?_, .block hw hbreak hend⟩
      simp only [List.length_append, List.length_cons, List.length_nil]

theorem Trails.not_break {tail rest : List Char} (h : Trails tail rest) : '\n' ∉ tail := by
  have hblank {w : List Char} (hw : ∀ c ∈ w, c = ' ' ∨ c = '\t') : '\n' ∉ w := fun hmem => by
    simpa using hw _ hmem
  cases h with
  | nothing => exact List.not_mem_nil
  | line hw hbody => simp [hblank hw, hbody]
  | block hw hbody => simp [hblank hw, hbody]

structure OpenTail (tail rest : List Char) : Prop where
  comment : ∃ w body, tail = w ++ '/' :: '/' :: body ∧ (∀ c ∈ w, Text.isBlank c = true) ∧ '\n' ∉ body
  lineEnd : LineEnd rest

theorem isBlank_of_trails {w : List Char} (hw : ∀ c ∈ w, c = ' ' ∨ c = '\t') :
    ∀ c ∈ w, Text.isBlank c = true := by
  intro c hc
  rcases hw c hc with rfl | rfl <;> decide

theorem tail_cases (text : List Char) :
    ∃ tail rest, text = tail ++ rest ∧ tail.length = tailLength text ∧
      (tail = [] ∨ (Reads text [] rest ∧ tail.getLast? = some '/') ∨ OpenTail tail rest) := by
  obtain ⟨tail, rest, rfl, hlength, htail⟩ := exists_trails text
  refine ⟨tail, rest, rfl, hlength, ?_⟩
  cases htail with
  | nothing => exact .inl rfl
  | line hw hbody hrest => exact .inr (.inr ⟨⟨_, _, rfl, isBlank_of_trails hw, hbody⟩, hrest⟩)
  | @block w body _ hw hbody hend =>
    have hread := reads_piece (pieceAt_block 0 (blockEnd?_append (y := []) (by simpa using hend)
      (by simp) rest))
    refine .inr (.inl ⟨?_, by simp [List.getLast?_cons]⟩)
    rw [List.append_assoc]
    refine (reads_blanks (isBlank_of_trails hw) _).trans ?_
    simpa [Piece.lexemes, Piece.length, Nat.add_comm 2] using hread

end CallerFirst.Java.Source
