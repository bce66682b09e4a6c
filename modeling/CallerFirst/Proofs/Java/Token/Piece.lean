import CallerFirst.Java.Token.Lexer
import CallerFirst.Proofs.Java.Token.Number
import Mathlib.Data.List.Basic
import Mathlib.Data.List.Find
import Mathlib.Data.List.TakeWhile

/-!
# What a piece of a text depends on

`pieceAt_gap` says which pieces are comments. A comment depends on nothing behind it, and a token in
front of a semicolon or brace on nothing behind that (`pieceAt_stop`).
-/

namespace CallerFirst.Java.Token

variable {w y z r : List Char} {c x : Char} {n m i j : Nat}

def Piece.length : Piece → Nat
  | gap n => n
  | token _ n => n

theorem takeWhile_stop {p : Char → Bool} (hp : p x = false) (y : List Char) :
    (w ++ x :: y).takeWhile p = w.takeWhile p := by
  rw [List.takeWhile_append, List.takeWhile_cons]
  split
  · rename_i h
    simp [hp, (List.takeWhile_prefix p).eq_of_length h]
  · rfl

theorem takeWhile_append_of_mem {p : Char → Bool} (hx : x ∈ w) (hp : p x = false) (y : List Char) :
    (w ++ y).takeWhile p = w.takeWhile p := by
  obtain ⟨u, v, rfl⟩ := List.append_of_mem hx
  rw [List.append_assoc, List.cons_append, takeWhile_stop hp, takeWhile_stop hp]

theorem of_ite {b P : Prop} [Decidable b] {u v s : α} (hu : b → u = s → P) (hv : ¬b → v = s → P)
    (h : (if b then u else v) = s) : P := by
  by_cases hb : b
  · exact hu hb (by rwa [if_pos hb] at h)
  · exact hv hb (by rwa [if_neg hb] at h)

theorem ite_mono {b : Prop} [Decidable b] {u u' v v' s : α} (hu : u = s → u' = s)
    (hv : v = s → v' = s) : (if b then u else v) = s → (if b then u' else v') = s :=
  of_ite (fun hb h => by rw [if_pos hb, hu h]) (fun hb h => by rw [if_neg hb, hv h])

-- ---------------------------------------------------------------------------
-- Comments
-- ---------------------------------------------------------------------------

/-- Length of a line comment in front of whose text `//` stands. -/
def lineLength (r : List Char) : Nat :=
  min (2 + (r.takeWhile (· != '\n')).length + 1) (2 + r.length)

theorem pieceAt_line (i : Nat) (r : List Char) :
    pieceAt i '/' ('/' :: r) = .ok (.gap (lineLength r)) := by
  rw [pieceAt, if_neg (by decide), if_pos (by simp)]
  have : 1 + ('/' :: r).length = 2 + r.length := by
    rw [List.length_cons]
    omega
  rw [this]
  rfl

theorem pieceAt_block (i : Nat) (h : blockEnd? r = some m) :
    pieceAt i '/' ('*' :: r) = .ok (.gap (2 + m)) := by
  rw [pieceAt, if_neg (by decide), if_neg (by simp), if_pos (by simp)]
  rw [List.drop_one, List.tail_cons, h]

theorem numberPiece_eq_ok (h : numberPiece i length = .ok p) :
    ∃ n, length = .ok n ∧ p = .token .literal n := by
  unfold numberPiece at h
  split at h
  · cases h
    exact ⟨_, rfl, rfl⟩
  · cases h
  · cases h

theorem exists_of_head? (h : r.head? = some x) : ∃ s, r = x :: s :=
  ⟨_, (List.cons_head?_tail h).symm⟩

theorem pieceAt_gap (hc : Text.isBlank c = false) (hgap : pieceAt i c r = .ok (.gap n)) :
    c = '/' ∧ ((∃ s, r = '/' :: s ∧ n = lineLength s) ∨
      ∃ s m, r = '*' :: s ∧ blockEnd? s = some m ∧ n = 2 + m) := by
  unfold pieceAt at hgap
  -- behind the comments all is a token
  refine of_ite (fun hblank _ => absurd hblank (by simp [hc])) (fun _ => of_ite ?_ fun _ =>
    of_ite ?_ fun _ => of_ite ?_ fun _ => of_ite ?_ fun _ => of_ite ?_ fun _ => of_ite ?_ fun _ =>
      of_ite ?_ fun _ => of_ite ?_ fun _ => of_ite ?_ fun _ h => ?_) hgap
  · intro hline h
    simp only [Bool.and_eq_true, beq_iff_eq] at hline
    obtain ⟨rfl, hr⟩ := hline
    obtain ⟨s, rfl⟩ := exists_of_head? hr
    cases h
    refine ⟨rfl, .inl ⟨s, rfl, ?_⟩⟩
    simp only [lineLength, List.drop_one, List.tail_cons, List.length_cons]
    omega
  · intro hblock h
    simp only [Bool.and_eq_true, beq_iff_eq] at hblock
    obtain ⟨rfl, hr⟩ := hblock
    obtain ⟨s, rfl⟩ := exists_of_head? hr
    cases hm : blockEnd? s with
    | none => simp [hm] at h
    | some m =>
      simp only [List.drop_one, List.tail_cons, hm, Except.ok.injEq, Piece.gap.injEq] at h
      exact ⟨rfl, .inr ⟨s, m, rfl, hm, h.symm⟩⟩
  · rintro - ⟨⟩
  · rintro - ⟨⟩
  · intro _ h
    obtain ⟨_, -, h⟩ := numberPiece_eq_ok h
    cases h
  · rintro - ⟨⟩
  · intro _ h
    split at h <;> cases h
  · intro _ h
    obtain ⟨_, -, h⟩ := numberPiece_eq_ok h
    cases h
  · rintro - ⟨⟩
  · split at h <;> cases h

theorem blockEnd?_cons (c : Char) (r : List Char) :
    blockEnd? (c :: r) =
      if c = '*' ∧ r.head? = some '/' then some 2 else (blockEnd? r).map (· + 1) := by
  rw [blockEnd?.eq_def]
  split
  · simp_all
  · rename_i heq
    cases heq
    rw [if_neg]
    rintro ⟨rfl, hr⟩
    obtain ⟨s, rfl⟩ := exists_of_head? hr
    simp_all
  · simp_all

theorem two_le_blockEnd? (h : blockEnd? r = some n) : 2 ≤ n := by
  induction r generalizing n with
  | nil => cases h
  | cons c r ih =>
    rw [blockEnd?_cons] at h
    split at h
    · cases h
      exact le_refl 2
    · obtain ⟨m, hm, rfl⟩ := Option.map_eq_some_iff.mp h
      exact le_trans (ih hm) (Nat.le_succ m)

theorem blockEnd?_le (h : blockEnd? r = some n) : n ≤ r.length := by
  induction r generalizing n with
  | nil => cases h
  | cons c r ih =>
    rw [blockEnd?_cons] at h
    split at h
    · rename_i hend
      cases h
      obtain ⟨s, rfl⟩ := exists_of_head? hend.2
      simp
    · obtain ⟨m, hm, rfl⟩ := Option.map_eq_some_iff.mp h
      exact Nat.succ_le_succ (ih hm)

theorem blockEnd?_append (h : blockEnd? (w ++ y) = some n) (hn : n ≤ w.length) (z : List Char) :
    blockEnd? (w ++ z) = some n := by
  induction w generalizing n with
  | nil =>
    have := two_le_blockEnd? h
    simp only [List.length_nil] at hn
    omega
  | cons c w ih =>
    simp only [List.length_cons] at hn
    rw [List.cons_append, blockEnd?_cons] at h ⊢
    cases w with
    | nil =>
      split at h
      · cases h
        simp at hn
      · obtain ⟨m, hm, rfl⟩ := Option.map_eq_some_iff.mp h
        have := two_le_blockEnd? hm
        simp only [List.length_nil] at hn
        omega
    | cons d w =>
      have hhead (s : List Char) : (d :: w ++ s).head? = some d := rfl
      split at h
      · rename_i hend
        rwa [if_pos (by simpa [hhead] using hend)]
      · rename_i hend
        obtain ⟨m, hm, rfl⟩ := Option.map_eq_some_iff.mp h
        rw [if_neg (by simpa [hhead] using hend), ih hm (by omega)]
        rfl

theorem mem_of_lineLength_le (hy : y ≠ []) (h : lineLength (w ++ y) ≤ 2 + w.length) : '\n' ∈ w := by
  by_contra hw
  have hall : ∀ c ∈ w, (c != '\n') = true := fun c hc => by
    simpa using fun (heq : c = '\n') => hw (heq ▸ hc)
  have hlen : 0 < y.length := List.length_pos_iff.mpr hy
  rw [lineLength, List.takeWhile_append_of_pos hall] at h
  simp only [List.length_append] at h
  omega

theorem lineLength_append (hw : '\n' ∈ w) (y : List Char) : lineLength (w ++ y) = lineLength w := by
  have hlt : (w.takeWhile (· != '\n')).length < w.length := by
    by_contra hge
    have hprefix : w.takeWhile (· != '\n') <+: w := List.takeWhile_prefix _
    have heq := hprefix.eq_of_length_le (by omega)
    have := List.mem_takeWhile_imp (heq ▸ hw)
    simp at this
  rw [lineLength, lineLength, takeWhile_append_of_mem hw (by simp), List.length_append]
  omega

/-- A comment within a text does not depend on what follows, unless the text ends there. -/
theorem pieceAt_comment (hc : Text.isBlank c = false) (hy : y ≠ [])
    (h : pieceAt i c (w ++ y) = .ok (.gap n)) (hn : n ≤ 1 + w.length) (j : Nat) (z : List Char) :
    pieceAt j c (w ++ z) = .ok (.gap n) := by
  obtain ⟨rfl, ⟨s, hs, rfl⟩ | ⟨s, m, hs, hm, rfl⟩⟩ := pieceAt_gap hc h
  · cases w with
    | nil =>
      obtain rfl : y = '/' :: s := hs
      simp [lineLength] at hn
      omega
    | cons d w =>
      obtain ⟨rfl, rfl⟩ : d = '/' ∧ w ++ y = s := by simpa using hs
      have hmem : '\n' ∈ w := mem_of_lineLength_le hy (by simp only [List.length_cons] at hn; omega)
      rw [List.cons_append, pieceAt_line, lineLength_append hmem, lineLength_append hmem]
  · cases w with
    | nil =>
      simp only [List.length_nil] at hn
      omega
    | cons d w =>
      obtain ⟨rfl, rfl⟩ : d = '*' ∧ w ++ y = s := by simpa using hs
      simp only [List.length_cons] at hn
      exact pieceAt_block j (blockEnd?_append hm (by omega) z)

-- ---------------------------------------------------------------------------
-- Tokens
-- ---------------------------------------------------------------------------

theorem quotedLength_cons (c : Char) (st : LiteralState) (d : Char) :
    (∃ p, ∀ r, quotedLength c st (d :: r) = .error p) ∨
      (∀ r, quotedLength c st (d :: r) = .ok 1) ∨
      ∃ next, ∀ r, quotedLength c st (d :: r) = (· + 1) <$> quotedLength c next r := by
  have hplain : ∀ st, (∀ r, quotedLength c st (d :: r) =
      if d == '\\' then (· + 1) <$> quotedLength c .escape r
      else if d == c then .ok 1
      else (· + 1) <$> quotedLength c .plain r) →
      (∀ r, quotedLength c st (d :: r) = .ok 1) ∨
        ∃ next, ∀ r, quotedLength c st (d :: r) = (· + 1) <$> quotedLength c next r := by
    intro st h
    by_cases h₁ : (d == '\\') = true
    · exact .inr ⟨.escape, fun r => by rw [h, if_pos h₁]⟩
    · by_cases h₂ : (d == c) = true
      · exact .inl fun r => by rw [h, if_neg h₁, if_pos h₂]
      · exact .inr ⟨.plain, fun r => by rw [h, if_neg h₁, if_neg h₂]⟩
  cases st with
  | plain => exact .inr (hplain .plain fun r => rfl)
  | octalEnd => exact .inr (hplain .octalEnd fun r => rfl)
  | octal =>
    by_cases h₁ : ('0' ≤ d && d ≤ '7') = true
    · exact .inr (.inr ⟨.octalEnd, fun r => if_pos h₁⟩)
    · by_cases h₂ : (d == '\\') = true
      · exact .inr (.inr ⟨.escape, fun r => by rw [quotedLength, if_neg h₁, if_pos h₂]⟩)
      · by_cases h₃ : (d == c) = true
        · exact .inr (.inl fun r => by rw [quotedLength, if_neg h₁, if_neg h₂, if_pos h₃])
        · exact .inr (.inr ⟨.octal, fun r => by rw [quotedLength, if_neg h₁, if_neg h₂, if_neg h₃]⟩)
  | escape =>
    by_cases h₁ : "btnfru\"'\\".toList.contains d = true
    · exact .inr (.inr ⟨.plain, fun r => if_pos h₁⟩)
    · by_cases h₂ : ('0' ≤ d && d ≤ '3') = true
      · exact .inr (.inr ⟨.octal, fun r => by rw [quotedLength, if_neg h₁, if_pos h₂]⟩)
      · by_cases h₃ : ('4' ≤ d && d ≤ '7') = true
        · exact .inr (.inr ⟨.octalEnd, fun r => by rw [quotedLength, if_neg h₁, if_neg h₂, if_pos h₃]⟩)
        · exact .inl ⟨_, fun r => by rw [quotedLength, if_neg h₁, if_neg h₂, if_neg h₃]⟩

theorem one_le_quotedLength {st : LiteralState} (h : quotedLength c st r = .ok n) : 1 ≤ n := by
  cases r with
  | nil => cases st <;> cases h
  | cons d r =>
    obtain ⟨p, hp⟩ | hp | ⟨next, hp⟩ := quotedLength_cons c st d
    · rw [hp] at h
      cases h
    · rw [hp] at h
      cases h
      exact le_refl 1
    · rw [hp] at h
      obtain ⟨m, -, rfl⟩ := (map_eq_ok _ _ _).mp h
      exact Nat.le_add_left 1 m

theorem quotedLength_append {st : LiteralState} (h : quotedLength c st (w ++ y) = .ok n)
    (hn : n ≤ w.length) (z : List Char) : quotedLength c st (w ++ z) = .ok n := by
  induction w generalizing st n with
  | nil =>
    have := one_le_quotedLength h
    simp only [List.length_nil] at hn
    omega
  | cons d w ih =>
    obtain ⟨p, hp⟩ | hp | ⟨next, hp⟩ := quotedLength_cons c st d
    · rw [List.cons_append, hp] at h
      cases h
    · rwa [List.cons_append, hp] at h ⊢
    · rw [List.cons_append, hp] at h ⊢
      obtain ⟨m, hm, rfl⟩ := (map_eq_ok _ _ _).mp h
      rw [ih hm (by simpa using hn)]
      rfl

theorem isPrefixOf_stop {word : List Char} (hx : x ∉ word) (y : List Char) :
    word.isPrefixOf (w ++ x :: y) = word.isPrefixOf w := by
  induction word generalizing w with
  | nil => simp
  | cons a word ih =>
    obtain ⟨hne, hx⟩ := not_or.mp (List.mem_cons.not.mp hx)
    cases w with
    | nil => simp [List.isPrefixOf, Ne.symm hne]
    | cons b w => simp [List.isPrefixOf, ih hx]

theorem operators_ne_nil : ∀ op ∈ operators, op ≠ [] := by
  decide +kernel

theorem operators_stop (hx : isStop x = true) : ∀ op ∈ operators, x ∉ op := by
  rcases isStop_cases hx with rfl | rfl | rfl <;> decide +kernel

theorem operatorLength?_stop (hx : isStop x = true) (y z : List Char) :
    operatorLength? (w ++ x :: y) = operatorLength? (w ++ x :: z) := by
  unfold operatorLength?
  rw [List.find?_congr fun op hop => ?_]
  rw [isPrefixOf_stop (operators_stop hx op hop), isPrefixOf_stop (operators_stop hx op hop)]

theorem one_le_operatorLength (h : operatorLength? r = some n) : 1 ≤ n := by
  obtain ⟨op, hop, rfl⟩ := Option.map_eq_some_iff.mp h
  exact List.length_pos_iff.mpr (operators_ne_nil op (List.mem_of_find?_eq_some hop))

theorem isIdentifierPart_stop (hx : isStop x = true) : Text.isIdentifierPart x = false := by
  rcases isStop_cases hx with rfl | rfl | rfl <;> decide +kernel

theorem numberPiece_index {length : Except Number.Fault Nat} (j : Nat)
    (h : numberPiece i length = .ok p) : numberPiece j length = .ok p := by
  obtain ⟨n, rfl, rfl⟩ := numberPiece_eq_ok h
  rfl

theorem pieceAt_token_stop (hx : isStop x = true) {kind : TokenKind}
    (h : pieceAt i c (w ++ x :: y) = .ok (.token kind n)) (hn : n ≤ 1 + w.length) (j : Nat)
    (z : List Char) : pieceAt j c (w ++ x :: z) = .ok (.token kind n) := by
  have hhead (s : List Char) : (w ++ x :: s).head? = (w ++ [x]).head? := by cases w <;> rfl
  have hdots (s : List Char) : ['.', '.'].isPrefixOf (w ++ x :: s) = ['.', '.'].isPrefixOf w :=
    isPrefixOf_stop (by rcases isStop_cases hx with rfl | rfl | rfl <;> decide) s
  have hpart := isIdentifierPart_stop hx
  obtain ⟨m, hm⟩ := Number.decimal_stop (w := c :: w) hx
  obtain ⟨r, hr⟩ := Number.literal_stop hx c w
  simp only [List.cons_append] at hm
  unfold pieceAt at h ⊢
  rw [hhead y, hdots y, hm y, hr y, takeWhile_stop hpart y] at h
  rw [hhead z, hdots z, hm z, hr z, takeWhile_stop hpart z]
  refine ite_mono (fun h => by cases h) (ite_mono (fun h => by cases h) (ite_mono ?_
    (ite_mono id (ite_mono id (ite_mono (numberPiece_index j) (ite_mono id (ite_mono ?_
      (ite_mono (numberPiece_index j) (ite_mono id ?_))))))))) h
  · intro h
    split at h <;> cases h
  · intro h
    split at h
    · rename_i k hk
      cases h
      rw [quotedLength_append hk (by omega) (x :: z)]
    · cases h
  · intro h
    rwa [← List.cons_append, operatorLength?_stop hx z y]

theorem pieceAt_index (h : pieceAt i c r = .ok p) (j : Nat) : pieceAt j c r = .ok p := by
  unfold pieceAt at h ⊢
  exact ite_mono id (ite_mono id (ite_mono id (ite_mono id (ite_mono id
    (ite_mono (numberPiece_index j) (ite_mono id (ite_mono id
      (ite_mono (numberPiece_index j) (ite_mono id id))))))))) h

theorem pieceAt_stop (hx : isStop x = true) (hc : Text.isBlank c = false)
    (h : pieceAt i c (w ++ x :: y) = .ok p) (hp : p.length ≤ 1 + w.length) (j : Nat) (z : List Char) :
    pieceAt j c (w ++ x :: z) = .ok p := by
  cases p with
  | gap n => exact pieceAt_comment hc (List.cons_ne_nil x y) h hp j (x :: z)
  | token kind n => exact pieceAt_token_stop hx h hp j z

theorem one_le_length (h : pieceAt i c r = .ok p) : 1 ≤ p.length := by
  unfold pieceAt at h
  refine of_ite ?_ (fun _ => of_ite ?_ fun _ => of_ite ?_ fun _ => of_ite ?_ fun _ => of_ite ?_ fun _ =>
    of_ite ?_ fun _ => of_ite ?_ fun _ => of_ite ?_ fun _ => of_ite ?_ fun _ => of_ite ?_ fun _ h =>
      ?_) h
  · rintro - ⟨⟩
    exact Nat.le_add_right 1 _
  · rintro - ⟨⟩
    simp only [Piece.length]
    omega
  · intro _ h
    split at h
    · cases h
      simp only [Piece.length]
      omega
    · cases h
  · rintro - ⟨⟩
    decide
  · rintro - ⟨⟩
    decide
  · intro hc h
    obtain ⟨n, hn, rfl⟩ := numberPiece_eq_ok h
    simp only [Bool.and_eq_true, beq_iff_eq] at hc
    exact Number.one_le_decimal (.inr hc.1) hn
  · rintro - ⟨⟩
    decide
  · intro _ h
    split at h
    · cases h
      exact Nat.le_add_right 1 _
    · cases h
  · intro hc h
    obtain ⟨n, hn, rfl⟩ := numberPiece_eq_ok h
    exact Number.one_le_literal hc hn
  · rintro - ⟨⟩
    simp [Piece.length]
  · split at h
    · rename_i n hn
      cases h
      exact one_le_operatorLength hn
    · cases h

theorem pieceAt_separator (hc : isStop c = true) (i : Nat) (r : List Char) :
    pieceAt i c r = .ok (.token .separator 1) := by
  unfold pieceAt
  rcases isStop_cases hc with rfl | rfl | rfl <;>
    rw [if_neg (by decide), if_neg (by simp), if_neg (by simp), if_neg (by simp), if_neg (by decide),
      if_neg (by simp), if_pos (by decide)]

end CallerFirst.Java.Token
