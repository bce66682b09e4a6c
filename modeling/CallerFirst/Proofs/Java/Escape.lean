import CallerFirst.Java.Escape
import Mathlib.Data.List.TakeWhile
import Mathlib.Data.Nat.Basic

/-!
# Texts without escapes

A backslash waits for the next character, and the two are an escape if that is a `u`. Texts without
escapes are left as they are (`expand_of_free`), and may be cut and put together wherever no
backslash waits. Texts with escapes that keep the lines as they are (`Expands`) may be cut wherever
the text that they stand for is cut.
-/

namespace CallerFirst.Java.Escape

variable {a b : List Char} {c : Char} {waits : Bool}

/-- Whether a backslash waits behind a text, unless there is an escape in it. -/
def after : Bool → List Char → Option Bool
  | waits, [] => some waits
  | true, c :: rest => if c = 'u' then none else after false rest
  | false, c :: rest => after (c == '\\') rest

def Free (text : List Char) : Prop :=
  (after false text).isSome = true

instance (text : List Char) : Decidable (Free text) :=
  inferInstanceAs (Decidable (_ = true))

theorem after_append (waits : Bool) (a b : List Char) :
    after waits (a ++ b) = (after waits a).bind fun w => after w b := by
  induction a generalizing waits with
  | nil => rfl
  | cons c a ih =>
    cases waits with
    | false => exact ih (c == '\\')
    | true =>
      simp only [List.cons_append, after]
      split
      · rfl
      · exact ih false

theorem Free.exists_after (h : Free (a ++ b)) :
    ∃ waits, after false a = some waits ∧ (after waits b).isSome = true := by
  unfold Free at h
  rw [after_append, Option.isSome_bind] at h
  exact Option.any_eq_true _ _ |>.mp h

theorem Free.of_append (h : Free (a ++ b)) : Free a := by
  obtain ⟨waits, hwaits, -⟩ := h.exists_after
  simp [Free, hwaits]

theorem expandFrom_of_free {n : Nat} (segment : List Char) {text : List Char}
    (h : Free text) : expandFrom n segment text = .ok (segment.reverse ++ text) := by
  induction n generalizing segment text with
  | zero => rfl
  | succ n ih =>
    cases text with
    | nil => simp [expandFrom]
    | cons c rest =>
      by_cases hc : c = '\\'
      · subst hc
        cases rest with
        | nil =>
          rw [expandFrom, ih _ (show Free [] from rfl)]
          · simp
          all_goals simp
        | cons d rest =>
          have hd : d ≠ 'u' := by
            rintro rfl
            simp [Free, after] at h
          have hrest : Free rest := by simpa [Free, after, hd] using h
          rw [expandFrom, ih _ hrest]
          · simp
          · simpa using hd
      · have hrest : Free rest := by simpa [Free, after, beq_eq_false_iff_ne.mpr hc] using h
        rw [expandFrom, ih _ hrest]
        · simp
        all_goals simp [hc]

theorem expand_of_free {text : List Char} (h : Free text) : expand text = .ok text :=
  expandFrom_of_free [] h

theorem eq_false_of_after {w : Bool} (h : after waits a = some w) (ha : a ≠ [])
    (hlast : a.getLast? ≠ some '\\') : w = false := by
  obtain ⟨b, c, rfl⟩ := (List.eq_nil_or_concat a).resolve_left ha
  rw [List.concat_eq_append, after_append] at h
  obtain ⟨v, -, h⟩ := Option.bind_eq_some_iff.mp h
  have hc : c ≠ '\\' := by simpa using hlast
  cases v with
  | false =>
    cases h
    simpa using hc
  | true =>
    simp only [after] at h
    split at h
    · cases h
    · cases h
      rfl

theorem after_cons (hc : c ≠ '\\') (hu : c ≠ 'u') (waits : Bool) (a : List Char) :
    after waits (c :: a) = after false a := by
  cases waits with
  | false => rw [after, beq_eq_false_iff_ne.mpr hc]
  | true => rw [after, if_neg hu]

-- ---------------------------------------------------------------------------
-- Escapes that keep lines
-- ---------------------------------------------------------------------------

/-- `Expands w a b v`: with its escapes replaced, `a` is `b`. All escapes are whole, and line breaks
stand neither in an escape nor for one. A backslash waits in front of `a` if `w`, and behind it if
`v`. -/
inductive Expands : Bool → List Char → List Char → Bool → Prop
  | done {w} : Expands w [] [] w
  | plain {c a b v} (hc : c ≠ '\\') : Expands false a b v → Expands false (c :: a) (c :: b) v
  | backslash {a b v} : Expands true a b v → Expands false ('\\' :: a) ('\\' :: b) v
  | behind {c a b v} (hc : c ≠ 'u') : Expands false a b v → Expands true (c :: a) (c :: b) v
  | escape {us digits code a b v} (hus : ∀ c ∈ us, c = 'u') (hfirst : digits.head? ≠ some 'u')
      (hdigits : digits.length = 4) (hbreak : '\n' ∉ digits) (hcode : codeOf digits = .ok code)
      (hchar : Text.charOfCode code ≠ '\n') : Expands false a b v →
      Expands false ('\\' :: 'u' :: (us ++ (digits ++ a))) (Text.charOfCode code :: b) v

/-- All escapes are whole, and line breaks stand neither in an escape nor for one. -/
def KeepsLines (text : List Char) : Prop :=
  ∃ expanded waits, Expands false text expanded waits

theorem Expands.of_after {w v : Bool} (h : after w a = some v) : Expands w a a v := by
  induction a generalizing w with
  | nil =>
    cases h
    exact .done
  | cons c a ih =>
    cases w with
    | false =>
      by_cases hc : c = '\\'
      · subst hc
        exact .backslash (ih h)
      · rw [after, beq_eq_false_iff_ne.mpr hc] at h
        exact .plain hc (ih h)
    | true =>
      rw [after] at h
      split at h
      · cases h
      · rename_i hc
        exact .behind hc (ih h)

theorem Expands.append {w v u : Bool} (h : Expands w a b v) (h' : Expands v a' b' u) :
    Expands w (a ++ a') (b ++ b') u := by
  induction h with
  | done => exact h'
  | plain hc _ ih => exact .plain hc (ih h')
  | backslash _ ih => exact .backslash (ih h')
  | behind hc _ ih => exact .behind hc (ih h')
  | escape hus hfirst hdigits hbreak hcode hchar _ ih =>
    simpa using Expands.escape hus hfirst hdigits hbreak hcode hchar (ih h')

theorem Expands.exists_cut {w v : Bool} (h : Expands w a (b ++ b') v) :
    ∃ a₁ a₂ u, a = a₁ ++ a₂ ∧ Expands w a₁ b u ∧ Expands u a₂ b' v := by
  induction b generalizing w a with
  | nil => exact ⟨[], a, w, rfl, .done, h⟩
  | cons c b ih =>
    cases h with
    | plain hc h =>
      obtain ⟨a₁, a₂, u, rfl, h₁, h₂⟩ := ih h
      exact ⟨_ :: a₁, a₂, u, rfl, .plain hc h₁, h₂⟩
    | backslash h =>
      obtain ⟨a₁, a₂, u, rfl, h₁, h₂⟩ := ih h
      exact ⟨_ :: a₁, a₂, u, rfl, .backslash h₁, h₂⟩
    | behind hc h =>
      obtain ⟨a₁, a₂, u, rfl, h₁, h₂⟩ := ih h
      exact ⟨_ :: a₁, a₂, u, rfl, .behind hc h₁, h₂⟩
    | escape hus hfirst hdigits hbreak hcode hchar h =>
      obtain ⟨a₁, a₂, u, rfl, h₁, h₂⟩ := ih h
      exact ⟨_, a₂, u, by simp, .escape hus hfirst hdigits hbreak hcode hchar h₁, h₂⟩

theorem Expands.count_break {w v : Bool} (h : Expands w a b v) : a.count '\n' = b.count '\n' := by
  induction h with
  | done => rfl
  | plain _ _ ih | backslash _ ih | behind _ _ ih => rw [List.count_cons, List.count_cons, ih]
  | @escape us digits code a b v hus hfirst hdigits hbreak hcode hchar _ ih =>
    have hmarks : us.count '\n' = 0 := by
      refine List.count_eq_zero.mpr fun hmem => ?_
      cases hus _ hmem
    simp [List.count_append, hmarks, List.count_eq_zero.mpr hbreak, ih,
      List.count_cons_of_ne hchar]

theorem Expands.length_le {w v : Bool} (h : Expands w a b v) : b.length ≤ a.length := by
  induction h with
  | done => exact le_refl _
  | plain _ _ ih | backslash _ ih | behind _ _ ih => simpa using ih
  | escape =>
    simp only [List.length_cons, List.length_append]
    omega

theorem Expands.length_eq_iff {w v : Bool} (h : Expands w a b v) :
    a.length = b.length ↔ (after w a).isSome = true := by
  induction h with
  | done => simp [after]
  | plain hc _ ih => simpa [after, beq_eq_false_iff_ne.mpr hc] using ih
  | backslash _ ih => simpa [after] using ih
  | behind hc _ ih => simpa [after, hc] using ih
  | escape hus hfirst hdigits hbreak hcode hchar h ih =>
    have := h.length_le
    simp only [after, BEq.rfl, ↓reduceIte, Option.isSome_none, Bool.false_eq_true, iff_false]
    simp only [List.length_cons, List.length_append]
    omega

theorem Expands.eq_of_after {w v : Bool} (h : Expands w a b v) (hfree : (after w a).isSome = true) :
    a = b := by
  induction h with
  | done => rfl
  | plain hc _ ih => rw [ih (by simpa [after, beq_eq_false_iff_ne.mpr hc] using hfree)]
  | backslash _ ih => rw [ih (by simpa [after] using hfree)]
  | behind hc _ ih => rw [ih (by simpa [after, hc] using hfree)]
  | escape => simp [after] at hfree

theorem Expands.of_break {w v : Bool} (h : Expands w a (b ++ ['\n']) v) :
    v = false ∧ ∃ u, a = u ++ ['\n'] := by
  obtain ⟨u, c, w, rfl, -, hlast⟩ := h.exists_cut
  generalize hbreak : ['\n'] = last at hlast
  cases hlast with
  | done => cases hbreak
  | plain _ h | behind _ h =>
    cases hbreak
    cases h
    exact ⟨rfl, u, rfl⟩
  | backslash => simp at hbreak
  | escape hus hfirst hdigits hbreak' hcode hchar =>
    exact absurd (List.cons_eq_cons.mp hbreak).1.symm hchar

-- ---------------------------------------------------------------------------
-- Cuts
-- ---------------------------------------------------------------------------

section Cuts

variable {a' b' c d c' d' : List Char} {w u v u' v' : Bool}

theorem append_digits {us us' digits digits' : List Char} (hus : ∀ c ∈ us, c = 'u')
    (hus' : ∀ c ∈ us', c = 'u') (hfirst : digits.head? ≠ some 'u')
    (hfirst' : digits'.head? ≠ some 'u') (hdigits : digits.length = 4) (hdigits' : digits'.length = 4)
    (h : us ++ (digits ++ a) = us' ++ (digits' ++ b)) : us = us' ∧ digits = digits' ∧ a = b := by
  have hmarks {us digits : List Char} (a : List Char) (hus : ∀ c ∈ us, c = 'u')
      (hfirst : digits.head? ≠ some 'u') (hdigits : digits.length = 4) :
      (us ++ (digits ++ a)).takeWhile (· == 'u') = us := by
    cases digits with
    | nil => cases hdigits
    | cons d digits =>
      rw [List.takeWhile_append_of_pos (by simpa using hus), List.cons_append,
        List.takeWhile_cons_of_neg (by simpa using hfirst), List.append_nil]
  have heq := hmarks a hus hfirst hdigits
  rw [h, hmarks b hus' hfirst' hdigits'] at heq
  subst heq
  obtain ⟨rfl, rfl⟩ := List.append_inj (List.append_cancel_left h) (hdigits.trans hdigits'.symm)
  exact ⟨rfl, rfl, rfl⟩

/-- Behind a backslash that was kept there is no mark of an escape. -/
theorem Expands.head_ne_mark (h : Expands true a b v) (h' : Expands v c d v') :
    (a ++ c).head? ≠ some 'u' := by
  cases h with
  | done =>
    cases h' with
    | done => simp
    | behind hc => simpa using hc
  | behind hc => simpa using hc

theorem Expands.between (h₁ : Expands w a b u) (h₂ : Expands u c d v) (h₁' : Expands w a' b' u')
    (h₂' : Expands u' c' d' v') (hsource : a ++ c = a' ++ c') (hle : b.length ≤ b'.length) :
    ∃ x y, a' = a ++ x ∧ b' = b ++ y ∧ Expands u x y u' := by
  induction h₁ generalizing a' b' with
  | done => exact ⟨a', b', rfl, rfl, h₁'⟩
  | plain hc _ ih =>
    cases h₁' with
    | done => simp at hle
    | plain _ h₁' =>
      rw [List.cons_append, List.cons_append, List.cons.injEq] at hsource
      obtain ⟨x, y, rfl, rfl, hxy⟩ := ih h₂ h₁' hsource.2 (by simpa using hle)
      exact ⟨x, y, congrArg (· :: _) hsource.1.symm, congrArg (· :: _) hsource.1.symm, hxy⟩
    | backslash | escape => exact absurd (List.cons.inj hsource).1 hc
  | backslash h ih =>
    cases h₁' with
    | done => simp at hle
    | plain hc => exact absurd (List.cons.inj hsource).1.symm hc
    | backslash h₁' =>
      obtain ⟨x, y, rfl, rfl, hxy⟩ := ih h₂ h₁' (List.cons.inj hsource).2 (by simpa using hle)
      exact ⟨x, y, rfl, rfl, hxy⟩
    | escape => exact absurd (congrArg List.head? (List.cons.inj hsource).2) (h.head_ne_mark h₂)
  | behind hc _ ih =>
    cases h₁' with
    | done => simp at hle
    | behind _ h₁' =>
      rw [List.cons_append, List.cons_append, List.cons.injEq] at hsource
      obtain ⟨x, y, rfl, rfl, hxy⟩ := ih h₂ h₁' hsource.2 (by simpa using hle)
      exact ⟨x, y, congrArg (· :: _) hsource.1.symm, congrArg (· :: _) hsource.1.symm, hxy⟩
  | escape hus hfirst hdigits hbreak hcode hchar h ih =>
    cases h₁' with
    | done => simp at hle
    | plain hc => exact absurd (List.cons.inj hsource).1.symm hc
    | backslash h₁' =>
      exact absurd (congrArg List.head? (List.cons.inj hsource).2.symm) (h₁'.head_ne_mark h₂')
    | escape hus' hfirst' hdigits' hbreak' hcode' hchar' h₁' =>
      simp only [List.cons_append, List.cons.injEq, List.append_assoc, true_and] at hsource
      obtain ⟨rfl, rfl, hrest⟩ := append_digits hus hus' hfirst hfirst' hdigits hdigits' hsource
      cases hcode.symm.trans hcode'
      obtain ⟨x, y, rfl, rfl, hxy⟩ := ih h₂ h₁' hrest (by simpa using hle)
      exact ⟨x, y, by simp, rfl, hxy⟩

theorem Expands.exists_plain (h : Expands w (a ++ c) b v) (ha : '\\' ∉ a) : ∃ d, b = a ++ d := by
  induction a generalizing w b with
  | nil => exact ⟨b, rfl⟩
  | cons x a ih =>
    obtain ⟨hx, ha⟩ := not_or.mp (List.mem_cons.not.mp ha)
    generalize htext : (x :: a) ++ c = text at h
    cases h with
    | done => cases htext
    | plain _ h | behind _ h =>
      obtain ⟨rfl, rfl⟩ := List.cons.inj htext
      obtain ⟨d, rfl⟩ := ih h ha
      exact ⟨d, rfl⟩
    | backslash | escape => exact absurd (List.cons.inj htext).1.symm hx

end Cuts

theorem expandFrom_of_expands {n : Nat} (h : Expands false a b v) (hn : a.length ≤ n)
    (segment : List Char) : expandFrom n segment a = .ok (segment.reverse ++ b) := by
  induction n generalizing a b v segment with
  | zero =>
    obtain rfl := List.eq_nil_of_length_eq_zero (Nat.le_zero.mp hn)
    cases h
    rfl
  | succ n ih =>
    cases h with
    | done => simp [expandFrom]
    | plain hc h =>
      rw [expandFrom, ih h (by simpa using hn)]
      · simp
      all_goals simp [hc]
    | backslash h =>
      cases h with
      | done =>
        rw [expandFrom, ih .done (by simp)]
        · simp
        all_goals simp
      | behind hc h =>
        rw [expandFrom, ih h (by simp only [List.length_cons] at hn; omega)]
        · simp
        · simpa using hc
    | @escape us digits code a b _ hus hfirst hdigits hbreak hcode hchar h =>
      have hmarks : (us ++ (digits ++ a)).dropWhile (· == 'u') = digits ++ a := by
        rw [List.dropWhile_append_of_pos (by simpa using hus)]
        cases digits with
        | nil => simp at hdigits
        | cons d digits => simpa using hfirst
      have hne : digits ++ a ≠ [] := by
        intro hnil
        simp [(List.append_eq_nil_iff.mp hnil).1] at hdigits
      simp only [List.length_cons, List.length_append] at hn
      have htake : (digits ++ a).take 4 = digits := by simp [← hdigits]
      have hdrop : (digits ++ a).drop 4 = a := by simp [← hdigits]
      rw [expandFrom]
      simp only [hmarks, htake, hdrop, hcode, ih h (by omega)]
      simp [bind, Except.bind, pure, Except.pure]

theorem expand_of_expands {v : Bool} (h : Expands false a b v) : expand a = .ok b :=
  expandFrom_of_expands h (le_refl _) []

end CallerFirst.Java.Escape
