import CallerFirst.Java.Token.Number
import CallerFirst.Proofs.Except
import Mathlib.Data.Nat.Basic

/-!
# What a number depends on

A semicolon or brace ends every number. `literal_stop` and `decimal_stop`: what is read of a number in
front of such a character does not depend on what stands behind it.
-/

namespace CallerFirst.Java

/-- Characters that stand in tokens of their own only, quoted literals apart. -/
def isStop (x : Char) : Bool :=
  x == ';' || x == '\x7b' || x == '\x7d'

theorem isStop_cases (hx : isStop x = true) : x = ';' ∨ x = '\x7b' ∨ x = '\x7d' := by
  simpa [isStop, or_assoc] using hx

namespace Number

variable {isDigit : Char → Bool} {w : List Char} {x : Char} {n : Nat} {marks : String}

theorem digitRun_stop (hd : isDigit x = false) (hx : isStop x = true) (taken pending : Nat)
    (y : List Char) :
    digitRun isDigit taken pending (w ++ x :: y) = digitRun isDigit taken pending (w ++ [x]) := by
  induction w generalizing taken pending with
  | nil =>
    rcases isStop_cases hx with rfl | rfl | rfl <;> simp [digitRun, hd]
  | cons c w ih => simp only [List.cons_append, digitRun, ih]

theorem digitRun_le (hd : isDigit x = false) (hx : isStop x = true) (taken pending : Nat) :
    digitRun isDigit taken pending (w ++ [x]) ≤ taken + pending + w.length := by
  induction w generalizing taken pending with
  | nil =>
    rcases isStop_cases hx with rfl | rfl | rfl <;> simp [digitRun, hd]
  | cons c w ih =>
    simp only [List.cons_append, digitRun, List.length_cons]
    have h₁ := ih (taken + pending + 1) 0
    have h₂ := ih taken (pending + 1)
    split_ifs <;> omega

theorem extend_stop (hd : isDigit x = false) (hx : isStop x = true) (hn : n ≤ w.length) :
    ∃ m, n ≤ m ∧ m ≤ w.length ∧ ∀ y, extend isDigit n (w ++ x :: y) = .ok m := by
  have hle := digitRun_le (w := w.drop n) hd hx 0 0
  simp only [List.length_drop] at hle
  refine ⟨n + digitRun isDigit 0 0 (w.drop n ++ [x]), by omega, by omega, fun y => ?_⟩
  have hdrop : (w ++ x :: y).drop n = w.drop n ++ x :: y := List.drop_append_of_le_length hn
  have hsome : (w.drop n ++ x :: y).isEmpty = false := by simp
  simp [extend, digits, hdrop, hsome, digitRun_stop hd hx, bind, Except.bind, pure, Except.pure]

theorem follows_stop (hm : marks.toList.contains x = false) (hn : n ≤ w.length) (y : List Char) :
    follows marks n (w ++ x :: y) = follows marks n w := by
  unfold follows
  rw [List.drop_append_of_le_length hn]
  cases w.drop n with
  | nil => simpa using hm
  | cons c rest => rfl

theorem lt_of_follows (h : follows marks n w = true) : n < w.length := by
  unfold follows at h
  by_contra hn
  rw [List.drop_eq_nil_of_le (by omega)] at h
  cases h

theorem skip_stop (hm : marks.toList.contains x = false) (hn : n ≤ w.length) (y : List Char) :
    skip marks n (w ++ x :: y) = skip marks n w := by
  unfold skip
  rw [follows_stop hm hn]

theorem skip_le (marks : String) (hn : n ≤ w.length) : skip marks n w ≤ w.length := by
  unfold skip
  split
  · exact lt_of_follows (by assumption)
  · exact hn

def fraction (isDigit : Char → Bool) (n : Nat) (text : List Char) : Except Fault Nat :=
  if follows "." n text then extend isDigit (n + 1) text else .ok n

def exponent (marks : String) (n : Nat) (text : List Char) : Except Fault Nat :=
  if follows marks n text then extend isDecimal (skip "-+" (n + 1) text) text else .ok n

theorem decimal_eq (text : List Char) :
    decimal text = digits isDecimal text >>= fun whole =>
      if follows ".eEfFdD" whole text then
        (fraction isDecimal whole text >>= fun n => exponent "eE" n text) >>= fun n =>
          .ok (skip "fFdD" n text)
      else .ok whole := by
  unfold decimal fraction exponent
  cases digits isDecimal text with
  | error => rfl
  | ok whole =>
    cases hf : follows ".eEfFdD" whole text with
    | false => simp [bind, Except.bind, pure, Except.pure, hf]
    | true =>
      cases hp : follows "." whole text with
      | false =>
        cases he : follows "eE" whole text <;> simp [bind, Except.bind, pure, Except.pure, hf, hp, he]
      | true =>
        cases hn : extend isDecimal (whole + 1) text with
        | error => simp [bind, Except.bind, hf, hp, hn]
        | ok n =>
          cases he : follows "eE" n text <;>
            simp [bind, Except.bind, pure, Except.pure, hf, hp, hn, he]

theorem hexadecimal_eq (text : List Char) :
    hexadecimal text = extend isHexadecimal 2 text >>= fun whole =>
      if follows ".pP" whole text then
        fraction isHexadecimal whole text >>= fun n =>
          if follows "pP" n text then
            exponent "pP" n text >>= fun n => .ok (skip "fFdD" n text)
          else .error (.missingExponent n)
      else .ok whole := by
  unfold hexadecimal fraction exponent
  cases extend isHexadecimal 2 text with
  | error => rfl
  | ok whole =>
    cases hf : follows ".pP" whole text with
    | false => simp [bind, Except.bind, pure, Except.pure, hf]
    | true =>
      cases hp : follows "." whole text with
      | false =>
        cases he : follows "pP" whole text <;>
          simp [bind, Except.bind, pure, Except.pure, throw, throwThe, MonadExceptOf.throw, hf, hp, he]
      | true =>
        cases hn : extend isHexadecimal (whole + 1) text with
        | error => simp [bind, Except.bind, hf, hp, hn]
        | ok n =>
          cases he : follows "pP" n text <;>
            simp [bind, Except.bind, pure, Except.pure, throw, throwThe, MonadExceptOf.throw, hf, hp,
              hn, he]

theorem marks_stop (marks : String) (hx : isStop x = true)
    (hm : marks ∈ [".", "eE", "-+", "fFdD", "pP", ".pP", ".eEfFdD"]) :
    marks.toList.contains x = false := by
  simp only [List.mem_cons, List.not_mem_nil, or_false] at hm
  rcases isStop_cases hx with rfl | rfl | rfl <;>
    rcases hm with rfl | rfl | rfl | rfl | rfl | rfl | rfl <;> decide

theorem fraction_stop (hd : isDigit x = false) (hx : isStop x = true) (hn : n ≤ w.length) :
    ∃ m ≤ w.length, ∀ y, fraction isDigit n (w ++ x :: y) = .ok m := by
  have hpoint := fun y => follows_stop (marks_stop "." hx (by simp)) hn y
  cases hf : follows "." n w with
  | false => exact ⟨n, hn, fun y => by simp [fraction, hpoint, hf]⟩
  | true =>
    obtain ⟨m, -, hm, heq⟩ := extend_stop hd hx (lt_of_follows hf)
    exact ⟨m, hm, fun y => by simp [fraction, hpoint, hf, heq]⟩

theorem exponent_stop (hx : isStop x = true) (hm : marks = "eE" ∨ marks = "pP") (hn : n ≤ w.length) :
    ∃ m ≤ w.length, ∀ y, exponent marks n (w ++ x :: y) = .ok m := by
  have hmark : marks.toList.contains x = false :=
    marks_stop marks hx (by rcases hm with rfl | rfl <;> simp)
  cases hf : follows marks n w with
  | false => exact ⟨n, hn, fun y => by simp [exponent, follows_stop hmark hn, hf]⟩
  | true =>
    have hlt := lt_of_follows hf
    have hsign := fun y => skip_stop (marks_stop "-+" hx (by simp)) hlt y
    have hdecimal : isDecimal x = false := by
      rcases isStop_cases hx with rfl | rfl | rfl <;> decide
    obtain ⟨m, -, hm, heq⟩ := extend_stop hdecimal hx (skip_le "-+" hlt)
    exact ⟨m, hm, fun y => by simp [exponent, follows_stop hmark hn, hf, hsign, heq]⟩

theorem decimal_stop (hx : isStop x = true) : ∃ m, ∀ y, decimal (w ++ x :: y) = .ok m := by
  have hdecimal : isDecimal x = false := by
    rcases isStop_cases hx with rfl | rfl | rfl <;> decide
  have hdigits (y : List Char) :
      digits isDecimal (w ++ x :: y) = .ok (digitRun isDecimal 0 0 (w ++ [x])) := by
    simp [digits, digitRun_stop hdecimal hx 0 0 y]
  have hle := digitRun_le (w := w) hdecimal hx 0 0
  simp only [Nat.zero_add] at hle
  have hmarks := fun y => follows_stop (marks_stop ".eEfFdD" hx (by simp)) hle y
  cases hf : follows ".eEfFdD" (digitRun isDecimal 0 0 (w ++ [x])) w with
  | false =>
    exact ⟨_, fun y => by simp only [decimal_eq, hdigits, bind, Except.bind, hmarks, hf]; rfl⟩
  | true =>
    obtain ⟨n, hn, hfraction⟩ := fraction_stop hdecimal hx hle
    obtain ⟨m, hm, hexponent⟩ := exponent_stop hx (.inl rfl) hn
    refine ⟨skip "fFdD" m w, fun y => ?_⟩
    simp only [decimal_eq, hdigits, bind, Except.bind, hmarks, hf, ↓reduceIte, hfraction, hexponent]
    rw [skip_stop (marks_stop "fFdD" hx (by simp)) hm]

theorem hexadecimal_stop (hx : isStop x = true) (hw : 2 ≤ w.length) :
    ∃ r, ∀ y, hexadecimal (w ++ x :: y) = r := by
  have hhex : isHexadecimal x = false := by
    rcases isStop_cases hx with rfl | rfl | rfl <;> decide
  obtain ⟨whole, -, hle, hwhole⟩ := extend_stop hhex hx hw
  have hmarks := fun y => follows_stop (marks_stop ".pP" hx (by simp)) hle y
  cases hf : follows ".pP" whole w with
  | false =>
    exact ⟨_, fun y => by simp only [hexadecimal_eq, hwhole, bind, Except.bind, hmarks, hf]; rfl⟩
  | true =>
    obtain ⟨n, hn, hfraction⟩ := fraction_stop hhex hx hle
    obtain ⟨m, hm, hexponent⟩ := exponent_stop hx (.inr rfl) hn
    have hmark := fun y => follows_stop (marks_stop "pP" hx (by simp)) hn y
    have hkind := fun y => skip_stop (marks_stop "fFdD" hx (by simp)) hm y
    exact ⟨_, fun y => by
      simp only [hexadecimal_eq, hwhole, bind, Except.bind, hmarks, hf, ↓reduceIte, hfraction, hmark,
        hexponent, hkind]
      rfl⟩

theorem literal_stop (hx : isStop x = true) (c : Char) (w : List Char) :
    ∃ r, ∀ y, literal (c :: (w ++ x :: y)) = r := by
  obtain ⟨m, hm⟩ := decimal_stop (w := c :: w) hx
  have hdecimal : ∀ y, decimal (c :: (w ++ x :: y)) = .ok m := hm
  by_cases hc : c = '0'
  · subst hc
    cases w with
    | nil =>
      refine ⟨.ok m, fun y => ?_⟩
      rcases isStop_cases hx with rfl | rfl | rfl <;>
        simpa [literal, isOctal] using hdecimal y
    | cons d w =>
      have hbinary : isBinary x = false := by
        rcases isStop_cases hx with rfl | rfl | rfl <;> decide
      have hoctal : isOctal x = false := by
        rcases isStop_cases hx with rfl | rfl | rfl <;> decide
      obtain ⟨rhex, hrhex⟩ := hexadecimal_stop (w := '0' :: d :: w) hx (by simp)
      obtain ⟨b, -, -, hb⟩ := extend_stop (w := '0' :: d :: w) (n := 2) hbinary hx (by simp)
      obtain ⟨o, -, -, ho⟩ := extend_stop (w := '0' :: d :: w) (n := 1) hoctal hx (by simp)
      simp only [List.cons_append] at hrhex hb ho hdecimal
      exact ⟨_, fun y => by
        simp only [List.cons_append, literal, hrhex, hb, ho, hdecimal]
        rfl⟩
  · refine ⟨.ok m, fun y => ?_⟩
    unfold literal
    split
    · simp_all
    · simp_all
    · exact hdecimal y

-- ---------------------------------------------------------------------------
-- A number has a character
-- ---------------------------------------------------------------------------

theorem le_of_extend (h : extend isDigit n w = .ok m) : n ≤ m := by
  simp only [extend, bind_eq_ok] at h
  obtain ⟨k, -, h⟩ := h
  cases h
  exact Nat.le_add_right n k

theorem le_of_fraction (h : fraction isDigit n w = .ok m) : n ≤ m := by
  unfold fraction at h
  split at h
  · exact le_trans (Nat.le_succ n) (le_of_extend h)
  · cases h
    exact le_refl n

theorem le_skip : n ≤ skip marks n w := by
  unfold skip
  split <;> omega

theorem le_of_exponent (h : exponent marks n w = .ok m) : n ≤ m := by
  unfold exponent at h
  split at h
  · exact le_trans (le_trans (Nat.le_succ n) le_skip) (le_of_extend h)
  · cases h
    exact le_refl n

theorem le_digitRun (taken pending : Nat) (w : List Char) :
    taken ≤ digitRun isDigit taken pending w := by
  induction w generalizing taken pending with
  | nil => exact le_refl taken
  | cons d w ih =>
    have h₁ := ih (taken + pending + 1) 0
    have h₂ := ih taken (pending + 1)
    simp only [digitRun]
    split_ifs <;> omega

theorem one_le_digits (hd : isDigit c = true) (h : digits isDigit (c :: w) = .ok n) : 1 ≤ n := by
  simp only [digits, List.isEmpty_cons, Bool.false_eq_true, ↓reduceIte, digitRun, hd] at h
  cases h
  exact le_digitRun 1 0 w

theorem one_le_decimal (hc : c.isDigit = true ∨ c = '.') (h : decimal (c :: w) = .ok m) : 1 ≤ m := by
  simp only [decimal_eq, bind_eq_ok] at h
  obtain ⟨whole, hwhole, h⟩ := h
  split at h
  · simp only [bind_eq_ok] at h
    obtain ⟨e, ⟨n, hn, he⟩, h⟩ := h
    cases h
    have hone : 1 ≤ n := by
      rcases hc with hc | rfl
      · exact le_trans (one_le_digits hc hwhole) (le_of_fraction hn)
      · obtain rfl : 0 = whole := by simpa [digits, digitRun, isDecimal] using hwhole
        simp only [fraction, follows, List.drop_zero, List.head?_cons] at hn
        exact le_of_extend hn
    exact le_trans hone (le_trans (le_of_exponent he) le_skip)
  · rename_i hf
    cases h
    rcases hc with hc | rfl
    · exact one_le_digits hc hwhole
    · obtain rfl : 0 = m := by simpa [digits, digitRun, isDecimal] using hwhole
      simp [follows] at hf

theorem two_le_hexadecimal (h : hexadecimal w = .ok m) : 2 ≤ m := by
  simp only [hexadecimal_eq, bind_eq_ok] at h
  obtain ⟨whole, hwhole, h⟩ := h
  have htwo := le_of_extend hwhole
  split at h
  · simp only [bind_eq_ok] at h
    obtain ⟨n, hn, h⟩ := h
    split at h
    · simp only [bind_eq_ok] at h
      obtain ⟨e, he, h⟩ := h
      cases h
      exact le_trans htwo (le_trans (le_of_fraction hn) (le_trans (le_of_exponent he) le_skip))
    · cases h
  · cases h
    exact htwo

theorem one_le_literal (hc : c.isDigit = true) (h : literal (c :: w) = .ok m) : 1 ≤ m := by
  unfold literal at h
  split at h
  · cases h
  · split_ifs at h
    · exact le_trans (by decide) (two_le_hexadecimal h)
    · exact le_trans (by decide) (le_of_extend h)
    · exact le_of_extend h
    · exact one_le_decimal (.inl hc) h
  · exact one_le_decimal (.inl hc) h

end Number

end CallerFirst.Java
