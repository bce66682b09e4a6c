import CallerFirst.Text.Blank
import CallerFirst.Text.Split
import Mathlib.Data.List.Basic

/-!
# Parts and ends of texts

Splitting undoes joining as long as no part holds the separator, and nothing is dropped of a text
without characters of the class.
-/

namespace CallerFirst.Text

theorem dropEnds_eq_self {p : Char → Bool} {text : List Char} (h : ∀ c ∈ text, p c = false) :
    dropEnds p text = text := by
  have keeps (cs : List Char) (h : ∀ c ∈ cs, p c = false) : cs.dropWhile p = cs := by
    cases cs with
    | nil => rfl
    | cons c rest => simp [h c List.mem_cons_self]
  rw [dropEnds, keeps text h, keeps _ fun c hc => h c (List.mem_reverse.1 hc), List.reverse_reverse]

theorem split_eq_splitOn (separator : Char) (text : List Char) :
    split separator text = text.splitOn separator := by
  induction text with
  | nil => rfl
  | cons c rest ih =>
    rw [split, List.splitOn, List.splitOnP_cons_eq_if_modifyHead, ← List.splitOn, ih]
    split
    · rfl
    · cases hparts : rest.splitOn separator with
      | nil => exact absurd hparts (List.splitOnP_ne_nil _ rest)
      | cons part parts => rfl

theorem split_intercalate {separator : Char} {parts : List (List Char)} (hne : parts ≠ [])
    (h : ∀ part ∈ parts, separator ∉ part) :
    split separator ([separator].intercalate parts) = parts := by
  rw [split_eq_splitOn, List.splitOn_intercalate separator h hne]

theorem split_of_not_mem {separator : Char} {text : List Char} (h : separator ∉ text) :
    split separator text = [text] := by
  have hparts : ∀ part ∈ [text], separator ∉ part := by simpa using h
  simpa using split_intercalate (List.cons_ne_nil text []) hparts

end CallerFirst.Text
