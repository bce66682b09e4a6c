import CallerFirst.Proofs.Yaml.Numerals
import CallerFirst.Yaml.Writer

/-!
# Scalars as they are written

Truth values, numbers and plain words are taken for what they are: `implicitTag` of what
`writeScalar` writes is the tag of the value, and `scalarValue` gives the value back.
-/

namespace CallerFirst.Yaml

/-! ### Words -/

def isWordChar (c : Char) : Bool :=
  c.isAlphanum || c == '_' || c == '-' || c == '#'

/-- A text that can be written plain: it starts with a letter, and no other meaning is reserved for
it. -/
structure IsWord (word : String) : Prop where
  initial : word.toList.head?.any Char.isAlpha = true
  chars : word.toList.all isWordChar = true
  unreserved : word ∉ nullWords ++ boolWords

instance (word : String) : Decidable (IsWord word) :=
  decidable_of_iff
    (word.toList.head?.any Char.isAlpha = true ∧ word.toList.all isWordChar = true ∧
      word ∉ nullWords ++ boolWords)
    ⟨fun ⟨initial, chars, unreserved⟩ => ⟨initial, chars, unreserved⟩,
      fun h => ⟨h.initial, h.chars, h.unreserved⟩⟩

namespace IsWord

variable {word : String}

theorem exists_cons (h : IsWord word) :
    ∃ c rest, word.toList = c :: rest ∧ c.isAlpha = true := by
  have hinitial := h.initial
  cases hword : word.toList with
  | nil => simp [hword] at hinitial
  | cons c rest => exact ⟨c, rest, rfl, by simpa [hword] using hinitial⟩

theorem isEmpty (h : IsWord word) : word.isEmpty = false := by
  rw [← Bool.not_eq_true, String.isEmpty_iff]
  rintro rfl
  exact absurd h (by decide)

theorem isWordChar (h : IsWord word) : ∀ c ∈ word.toList, isWordChar c = true :=
  List.all_eq_true.1 h.chars

theorem not_mem (h : IsWord word) {c : Char} (hc : Yaml.isWordChar c = false) :
    c ∉ word.toList := by
  intro hm
  simp [h.isWordChar c hm] at hc

end IsWord

/-! ### Tags -/

theorem implicitTag_of_not_mem {chars : List Char} (h : '\n' ∉ chars) :
    implicitTag chars =
      let text := String.ofList chars
      if text.isEmpty || nullWords.contains text then Tag.null
      else if boolWords.contains text then Tag.bool
      else if isFloat chars then Tag.float
      else if isInteger chars then Tag.int
      else if isTimestamp chars then Tag.timestamp
      else if text == "<<" then Tag.merge
      else if text == "=" then Tag.value
      else Tag.text := by
  have hlast : ¬(chars.length > 1 && chars.getLast? == some '\n') = true := by
    simpa using fun _ hlast => h (List.mem_of_getLast? hlast)
  rw [implicitTag]
  simp only [if_neg hlast]

theorem toNat_of_isAlpha {c : Char} (h : c.isAlpha = true) :
    (65 ≤ c.toNat ∧ c.toNat ≤ 90) ∨ (97 ≤ c.toNat ∧ c.toNat ≤ 122) := by
  rcases Bool.or_eq_true_iff.1 h with hupper | hlower
  · exact .inl (of_decide_eq_true hupper)
  · obtain ⟨hfirst, hlast⟩ := Bool.and_eq_true_iff.1 hlower
    exact .inr ⟨of_decide_eq_true hfirst, of_decide_eq_true hlast⟩

theorem isDigit_of_isAlpha {c : Char} (h : c.isAlpha = true) : c.isDigit = false := by
  rw [← Bool.not_eq_true, Char.isDigit_iff_toNat]
  have hc := toNat_of_isAlpha h
  change ¬(48 ≤ c.toNat ∧ c.toNat ≤ 57)
  omega

theorem ne_of_isAlpha {c d : Char} (hc : c.isAlpha = true) (hd : d.isAlpha = false) : c ≠ d := by
  rintro rfl
  simp [hc] at hd

theorem isInteger_of_isWord {word : String} (h : IsWord word) :
    isInteger word.toList = false := by
  obtain ⟨c, rest, hword, hc⟩ := h.exists_cons
  have hsign : (Binary64.readSign word.toList).2 = word.toList := by
    rw [hword]
    unfold Binary64.readSign
    split
    · next heq => exact absurd (List.cons.inj heq).1 (ne_of_isAlpha hc (by decide))
    · next heq => exact absurd (List.cons.inj heq).1 (ne_of_isAlpha hc (by decide))
    · rfl
  have hdecimal : isDecimal word.toList = false := by
    have hgap : c ≠ '_' := ne_of_isAlpha hc (by decide)
    rw [isDecimal, Text.split_of_not_mem (h.not_mem (by decide)), hword]
    simp [isSpelled, isDigit_of_isAlpha hc, hgap]
  rw [isInteger, hsign, ← hdecimal, hword]
  unfold isUnsigned
  split
  case h_6 => rfl
  all_goals
    next heq => exact absurd (List.cons.inj heq).1 (ne_of_isAlpha hc (by decide))

theorem isTimestamp_of_isAlpha {c : Char} {rest : List Char} (h : c.isAlpha = true) :
    isTimestamp (c :: rest) = false := by
  simp [isTimestamp, DateText.read?, digitGroup?, isDigit_of_isAlpha h]

theorem implicitTag_of_isWord {word : String} (h : IsWord word) :
    implicitTag word.toList = Tag.text := by
  have hnull : word ∉ nullWords := fun hm => h.unreserved (List.mem_append_left _ hm)
  have hbool : word ∉ boolWords := fun hm => h.unreserved (List.mem_append_right _ hm)
  have hfloat := isFloat_of_not_mem (h.not_mem (c := '.') (by decide))
  have htime : isTimestamp word.toList = false := by
    obtain ⟨c, rest, hword, hc⟩ := h.exists_cons
    rw [hword, isTimestamp_of_isAlpha hc]
  have hmerge : word ≠ "<<" := by
    rintro rfl
    exact absurd h (by decide)
  have hvalue : word ≠ "=" := by
    rintro rfl
    exact absurd h (by decide)
  rw [implicitTag_of_not_mem (h.not_mem (by decide)), String.ofList_toList]
  simp [h.isEmpty, hnull, hbool, hfloat, isInteger_of_isWord h, htime, hmerge, hvalue]

theorem mem_toString {n : Int} {c : Char} (h : c ∈ (toString n).toList) :
    c = '-' ∨ c.isDigit = true := by
  have hdigits := (isNumeral_toDigits n.natAbs).isDigit
  rw [toList_toString] at h
  split at h
  · exact (List.mem_cons.1 h).imp id (hdigits c)
  · exact .inr (hdigits c h)

theorem exists_digit (n : Int) : ∃ c ∈ (toString n).toList, c.isDigit = true := by
  obtain ⟨c, rest, hdigits, hc, -⟩ := (isNumeral_toDigits n.natAbs).exists_cons
  refine ⟨c, ?_, hc⟩
  rw [toList_toString, hdigits]
  split <;> simp

theorem not_mem_toString (n : Int) {c : Char} (hdash : c ≠ '-') (hdigit : c.isDigit = false) :
    c ∉ (toString n).toList := by
  intro hm
  simpa [hdash, hdigit] using mem_toString hm

theorem implicitTag_toString (n : Int) : implicitTag (toString n).toList = Tag.int := by
  obtain ⟨c, hc, hdigit⟩ := exists_digit n
  -- no reserved word has a digit
  have hreserved (words : List String) (h : words.all fun w => w.toList.all (!·.isDigit)) :
      toString n ∉ words := by
    intro hm
    have hnone := List.all_eq_true.1 (List.all_eq_true.1 h _ hm) c hc
    simp [hdigit] at hnone
  have hempty : (toString n).isEmpty = false := by
    rw [← Bool.not_eq_true, String.isEmpty_iff]
    intro hn
    simp [hn] at hc
  have hfloat := isFloat_of_not_mem (not_mem_toString n (c := '.') (by decide) (by decide))
  rw [implicitTag_of_not_mem (not_mem_toString n (by decide) (by decide)), String.ofList_toList]
  simp only [hempty, hfloat, isInteger_toString, List.contains_iff_mem, Bool.false_or,
    hreserved nullWords (by decide), hreserved boolWords (by decide), if_false, if_true,
    Bool.false_eq_true]

/-! ### Values that are scalars -/

/-- Values that can be written on one line, as `writeScalar` does it. -/
inductive IsScalar : Value → Prop
  | bool (b : Bool) : IsScalar (.bool b)
  | int {n : Int} (h : Integer.isWritable n = true) : IsScalar (.int n)
  | word {s : String} (h : IsWord s) : IsScalar (.text s)
  | empty : IsScalar (.text "")

def scalarTag : Value → String
  | .bool _ => Tag.bool
  | .int _ => Tag.int
  | _ => Tag.text

/-- The empty text has to be quoted. -/
def isWrittenPlain : Value → Bool
  | .text s => !s.isEmpty
  | _ => true

def scalarText : Value → List Char
  | .text s => s.toList
  | v => (writeScalar v).toList

theorem IsWord.isWrittenPlain {word : String} (h : IsWord word) :
    isWrittenPlain (.text word) = true := by
  simp [Yaml.isWrittenPlain, h.isEmpty]

@[simp] theorem scalarText_int (n : Int) : scalarText (.int n) = (toString n).toList := rfl

@[simp] theorem scalarText_text (s : String) : scalarText (.text s) = s.toList := rfl

namespace IsScalar

variable {v : Value}

theorem implicitTag_scalarText (h : IsScalar v) (hplain : isWrittenPlain v = true) :
    implicitTag (scalarText v) = scalarTag v := by
  cases h with
  | bool b => cases b <;> decide +kernel
  | int =>
    rw [scalarText_int, implicitTag_toString]
    rfl
  | word h =>
    rw [scalarText_text, implicitTag_of_isWord h]
    rfl
  | empty => simp [isWrittenPlain] at hplain

theorem scalarValue_scalarText (h : IsScalar v) :
    scalarValue (scalarTag v) ⟨scalarText v, false⟩ = .ok v := by
  cases h with
  | bool b => cases b <;> rfl
  | int h =>
    rw [scalarText_int, ← intValue_toString h]
    rfl
  | word h => simp [scalarValue, scalarTag, textValue]
  | empty => rfl

theorem toList_writeScalar (h : IsScalar v) :
    isWrittenPlain v = true ∧ (writeScalar v).toList = scalarText v ∨ v = .text "" := by
  cases h with
  | bool => exact .inl ⟨rfl, rfl⟩
  | int => exact .inl ⟨rfl, rfl⟩
  | word h => exact .inl ⟨h.isWrittenPlain, by simp [writeScalar, h.isEmpty]⟩
  | empty => exact .inr rfl

/-- A scalar that is written plain starts with a letter or a digit, or with a dash in front of a
digit. -/
theorem initial (h : IsScalar v) (hplain : isWrittenPlain v = true) :
    (∃ c rest, scalarText v = c :: rest ∧ c.isAlphanum = true) ∨
      ∃ d rest, scalarText v = '-' :: d :: rest ∧ d.isDigit = true := by
  cases h with
  | bool b => cases b <;> exact .inl ⟨_, _, rfl, by decide⟩
  | @int n _ =>
    obtain ⟨c, rest, hdigits, hc, -⟩ := (isNumeral_toDigits n.natAbs).exists_cons
    rw [scalarText_int, toList_toString, hdigits]
    split
    · exact .inr ⟨c, rest, rfl, hc⟩
    · exact .inl ⟨c, rest, rfl, by simp [Char.isAlphanum, hc]⟩
  | word h =>
    obtain ⟨c, rest, hword, hc⟩ := h.exists_cons
    exact .inl ⟨c, rest, hword, by simp [Char.isAlphanum, hc]⟩
  | empty => simp [isWrittenPlain] at hplain

end IsScalar

end CallerFirst.Yaml
