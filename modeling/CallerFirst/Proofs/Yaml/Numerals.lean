import CallerFirst.Proofs.Text
import CallerFirst.Yaml.Scalar
import Mathlib.Algebra.Group.Nat.Defs
import Mathlib.Data.List.TakeWhile

/-!
# Numbers as they are written

A whole number is written by its decimal digits, with a dash in front of a negative one. Such a
scalar is taken for a number and for nothing else, and `intValue` gives back what was written as
long as the digits keep to the limit.
-/

namespace CallerFirst

/-! ### Numerals -/

/-- Decimal digits without a zero in front, a single zero aside. -/
structure IsNumeral (digits : List Char) : Prop where
  ne_nil : digits ≠ []
  isDigit : ∀ c ∈ digits, c.isDigit = true
  head : digits = ['0'] ∨ digits.head? ≠ some '0'

theorem head?_toDigits (n : Nat) (h : 0 < n) : (Nat.toDigits 10 n).head? ≠ some '0' := by
  induction n using Nat.strongRecOn with
  | ind n ih =>
    rcases Nat.lt_or_ge n 10 with hn | hn
    · simpa [Nat.toDigits_of_lt_base hn] using Nat.ne_of_gt h
    · rw [Nat.toDigits_of_base_le (by decide) hn, List.head?_append_of_ne_nil _ Nat.toDigits_ne_nil]
      exact ih (n / 10) (by omega) (by omega)

theorem isNumeral_toDigits (n : Nat) : IsNumeral (Nat.toDigits 10 n) where
  ne_nil := Nat.toDigits_ne_nil
  isDigit _ hc := Nat.isDigit_of_mem_toDigits (by decide) (by decide) hc
  head := by
    rcases Nat.eq_zero_or_pos n with rfl | hn
    · exact .inl (Nat.toDigits_zero 10)
    · exact .inr (head?_toDigits n hn)

theorem toList_toString (n : Int) :
    (toString n).toList =
      if n < 0 then '-' :: Nat.toDigits 10 n.natAbs else Nat.toDigits 10 n.natAbs := by
  cases n with
  | ofNat m =>
    rw [if_neg (by simp)]
    exact Nat.toList_repr
  | negSucc m =>
    rw [if_pos (Int.negSucc_lt_zero m)]
    show ("-" ++ (m + 1).repr).toList = _
    rw [String.toList_append, Nat.toList_repr]
    rfl

theorem ne_of_isDigit {c d : Char} (hc : c.isDigit = true) (hd : d.isDigit = false) : c ≠ d := by
  rintro rfl
  simp [hc] at hd

namespace IsNumeral

variable {digits : List Char}

theorem ne (h : IsNumeral digits) {d : Char} (hd : d.isDigit = false) : ∀ c ∈ digits, c ≠ d :=
  fun c hc => ne_of_isDigit (h.isDigit c hc) hd

theorem not_mem (h : IsNumeral digits) {d : Char} (hd : d.isDigit = false) : d ∉ digits :=
  fun hm => h.ne hd d hm rfl

theorem exists_cons (h : IsNumeral digits) :
    ∃ c rest, digits = c :: rest ∧ c.isDigit = true ∧ (c = '0' → rest = []) := by
  cases digits with
  | nil => exact absurd rfl h.ne_nil
  | cons c rest =>
    refine ⟨c, rest, rfl, h.isDigit c List.mem_cons_self, fun hc => ?_⟩
    rcases h.head with h | h
    · exact (List.cons.inj h).2
    · exact absurd (congrArg some hc) h

theorem ne_cons (h : IsNumeral digits) {d : Char} (hd : d.isDigit = false) (rest : List Char) :
    digits ≠ d :: rest := by
  rintro rfl
  exact h.ne hd d List.mem_cons_self rfl

end IsNumeral

/-! ### Reading numerals -/

namespace Integer

theorem digitValue?_of_isDigit {c : Char} (h : c.isDigit = true) :
    digitValue? 10 c = some (c.toNat - '0'.toNat) := by
  have hc : 48 ≤ c.toNat ∧ c.toNat ≤ 57 := Char.isDigit_iff_toNat.1 h
  have hlower : ¬('a' ≤ c ∧ c ≤ 'z') := by
    rintro ⟨ha, -⟩
    have : 97 ≤ c.toNat := UInt32.le_iff_toNat_le.1 (Char.le_def.1 ha)
    omega
  have hupper : ¬('A' ≤ c ∧ c ≤ 'Z') := by
    rintro ⟨ha, -⟩
    have : 65 ≤ c.toNat := UInt32.le_iff_toNat_le.1 (Char.le_def.1 ha)
    omega
  rw [digitValue?, if_neg (by simpa using hlower), if_neg (by simpa using hupper),
    Text.digitValue?, if_pos h]
  exact Option.filter_some_pos (by simp; omega)

theorem digitsFrom?_of_isDigit (digits : List Char) (h : ∀ c ∈ digits, c.isDigit = true)
    (value : Nat) : digitsFrom? 10 value digits = some (Nat.ofDigitChars 10 digits value) := by
  induction digits generalizing value with
  | nil => simp [digitsFrom?]
  | cons c rest ih =>
    have hc := h c List.mem_cons_self
    rw [digitsFrom?, digitValue?_of_isDigit hc, Option.bind_some,
      ih (fun d hd => h d (List.mem_cons_of_mem c hd)), Nat.ofDigitChars_cons, Nat.mul_comm value]
    rintro _ _ rfl
    exact absurd hc (by decide)

theorem digits?_of_isNumeral {digits : List Char} (h : IsNumeral digits) :
    digits? 10 digits = some (Nat.ofDigitChars 10 digits 0) := by
  obtain ⟨c, rest, rfl, hc, -⟩ := h.exists_cons
  rw [digits?, digitValue?_of_isDigit hc, Option.bind_some, Nat.ofDigitChars_cons,
    digitsFrom?_of_isDigit rest fun d hd => h.isDigit d (List.mem_cons_of_mem c hd)]
  simp

theorem unsigned?_of_isNumeral {digits : List Char} (h : IsNumeral digits) :
    unsigned? 10 digits = some (Nat.ofDigitChars 10 digits 0) := by
  rw [← digits?_of_isNumeral h]
  obtain ⟨c, rest, rfl, -, hzero⟩ := h.exists_cons
  rw [unsigned?]
  rintro mark rest' hd
  obtain ⟨rfl, rfl⟩ := List.cons.inj hd
  exact absurd (hzero rfl) (by simp)

theorem isNumberBlank_of_isDigit {c : Char} (h : c.isDigit = true) :
    Text.isNumberBlank c = false := by
  have hc : 48 ≤ c.toNat ∧ c.toNat ≤ 57 := Char.isDigit_iff_toNat.1 h
  simp only [Text.isNumberBlank, Text.isBlank, Text.Ranges.contains, Text.blanks]
  simp
  omega

theorem read?_of_isNumeral {digits : List Char} (h : IsNumeral digits) :
    read? 10 digits = some (Nat.ofDigitChars 10 digits 0 : Int) := by
  have hends : Text.dropEnds Text.isNumberBlank digits = digits :=
    Text.dropEnds_eq_self fun c hc => isNumberBlank_of_isDigit (h.isDigit c hc)
  have hvalue := unsigned?_of_isNumeral h
  rw [read?, hends]
  split
  · exact absurd rfl (h.ne_cons (by decide) _)
  · exact absurd rfl (h.ne_cons (by decide) _)
  · simp [hvalue]

theorem isWritable_iff {n : Int} : isWritable n = true ↔ n.natAbs < 10 ^ digitLimit := by
  simp only [isWritable, Nat.pow_eq, decide_eq_true_eq]

theorem digitCount_le_length (text : List Char) : digitCount text ≤ text.length :=
  List.countP_le_length

end Integer

namespace Yaml

theorem integerIn_toDigits {n : Nat} (h : n < 10 ^ Integer.digitLimit) :
    integerIn 10 (Nat.toDigits 10 n) = .ok n := by
  have hlength : (Nat.toDigits 10 n).length ≤ Integer.digitLimit :=
    (Nat.length_toDigits_le_iff (by decide) (by decide)).2 h
  have hcount := Integer.digitCount_le_length (Nat.toDigits 10 n)
  rw [integerIn, Integer.read?_of_isNumeral (isNumeral_toDigits n), Nat.ofDigitChars_ten_toDigits]
  simp only [BEq.rfl, Bool.true_and]
  rw [if_neg (by simp; omega)]

theorem magnitude_toDigits {n : Nat} (h : n < 10 ^ Integer.digitLimit) :
    magnitude (Nat.toDigits 10 n) = .ok n := by
  have hcolon : (Nat.toDigits 10 n).contains ':' = false := by
    simpa using (isNumeral_toDigits n).not_mem (d := ':') (by decide)
  rcases Nat.eq_zero_or_pos n with rfl | hn
  · rw [Nat.toDigits_zero]; rfl
  · have hzero := head?_toDigits n hn
    rw [← integerIn_toDigits h]
    -- a zero in front would mark another base
    unfold magnitude
    split
    case h_6 => rw [if_neg (by simpa using hcolon)]
    case h_1 heq => exact absurd heq Nat.toDigits_ne_nil
    all_goals
      next heq => exact absurd (congrArg List.head? heq) hzero

theorem intValue_toString {n : Int} (h : Integer.isWritable n = true) :
    intValue (toString n).toList = .ok (.int n) := by
  have hvalue := magnitude_toDigits (Integer.isWritable_iff.1 h)
  have hnumeral := isNumeral_toDigits n.natAbs
  have hgaps : (Nat.toDigits 10 n.natAbs).filter (· != '_') = Nat.toDigits 10 n.natAbs :=
    List.filter_eq_self.2 fun c hc => by simpa using hnumeral.ne (d := '_') (by decide) c hc
  rw [toList_toString, intValue]
  by_cases hn : n < 0
  · rw [if_pos hn, List.filter_cons_of_pos (by decide), hgaps]
    simp only [hvalue]
    show Except.ok (Value.int (-(n.natAbs : Int))) = _
    rw [Int.ofNat_natAbs_of_nonpos (Int.le_of_lt hn), Int.neg_neg]
  · rw [if_neg hn, hgaps]
    split
    · next heq => exact absurd heq (hnumeral.ne_cons (by decide) _)
    · next heq => exact absurd heq (hnumeral.ne_cons (by decide) _)
    · simp only [hvalue]
      show Except.ok (Value.int (n.natAbs : Int)) = _
      rw [Int.natAbs_of_nonneg (Int.not_lt.1 hn)]

/-! ### What a number looks like -/

theorem readSign_toString (n : Int) :
    (Binary64.readSign (toString n).toList).2 = Nat.toDigits 10 n.natAbs := by
  have hnumeral := isNumeral_toDigits n.natAbs
  rw [toList_toString]
  split
  · rfl
  · unfold Binary64.readSign
    split
    · next heq => exact absurd heq (hnumeral.ne_cons (by decide) _)
    · next heq => exact absurd heq (hnumeral.ne_cons (by decide) _)
    · rfl

theorem isUnsigned_of_isNumeral {digits : List Char} (h : IsNumeral digits) :
    isUnsigned digits = true := by
  have hdecimal : isDecimal digits = true := by
    rw [isDecimal, Text.split_of_not_mem (h.not_mem (by decide))]
    simpa [isSpelled, h.ne_nil] using fun c hc => .inl (h.isDigit c hc)
  rcases h.head with rfl | hzero
  · rfl
  · unfold isUnsigned
    split
    case h_6 => exact hdecimal
    case h_5 => exact absurd rfl (h.ne_cons (by decide) _)
    all_goals exact absurd rfl hzero

theorem isInteger_toString (n : Int) : isInteger (toString n).toList = true := by
  rw [isInteger, readSign_toString]
  exact isUnsigned_of_isNumeral (isNumeral_toDigits n.natAbs)

theorem not_mem_readSign {c : Char} {text : List Char} (h : c ∉ text) :
    c ∉ (Binary64.readSign text).2 := by
  unfold Binary64.readSign
  split
  · exact List.not_mem_of_not_mem_cons h
  · exact List.not_mem_of_not_mem_cons h
  · exact h

theorem isFloat_of_not_mem {text : List Char} (h : '.' ∉ text) : isFloat text = false := by
  have hunsigned := not_mem_readSign h
  have hwords (words : List String) (hwords : words.all (·.toList.contains '.')) (rest : List Char)
      (hrest : '.' ∉ rest) : words.contains (String.ofList rest) = false := by
    rw [← Bool.not_eq_true, List.contains_iff_mem]
    intro hm
    exact hrest (by simpa using List.all_eq_true.1 hwords _ hm)
  have hfraction : isFraction text = false := by
    rw [isFraction]
    split
    · next heq => exact absurd ((List.dropWhile_subset _) (heq ▸ List.mem_cons_self)) hunsigned
    · next heq => exact absurd ((List.dropWhile_subset _) (heq ▸ List.mem_cons_self)) hunsigned
    · rfl
  have hsixtieth : isSixtiethFraction text = false := by
    have hpoint : (Binary64.readSign text).2.dropWhile (· != '.') = [] :=
      List.dropWhile_eq_nil_iff.2 fun c hc => by
        simpa using fun heq : c = '.' => hunsigned (heq ▸ hc)
    rw [isSixtiethFraction, hpoint]
    split
    · contradiction
    · rfl
  rw [isFloat, hfraction, hsixtieth, hwords _ (by decide) _ hunsigned, hwords _ (by decide) _ h]
  rfl

end Yaml

end CallerFirst
