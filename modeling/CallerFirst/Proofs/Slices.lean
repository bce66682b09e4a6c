import CallerFirst.Text.Lines
import Mathlib.Data.List.Basic

/-!
# Slices of a text put together

For places within a text, slices that meet make up the slice over both.
-/

namespace CallerFirst.Text

variable {α : Type} {text : List α} {a b c : Int}

theorem slice_append_drop {m n : Nat} (h : m ≤ n) (text : List α) :
    slice text m n ++ text.drop n = text.drop m := by
  have hdrop : (text.take n ++ text.drop n).drop m = text.drop m := by rw [List.take_append_drop]
  rcases Nat.le_total m text.length with hm | hm
  · rwa [List.drop_append_of_le_length (by rw [List.length_take]; omega)] at hdrop
  · rw [slice, List.drop_eq_nil_of_le hm, List.drop_eq_nil_of_le (Nat.le_trans hm h),
      List.drop_eq_nil_of_le (by rw [List.length_take]; omega), List.append_nil]

theorem between_natCast (text : List α) (m n : Nat) : between text m n = slice text m n := by
  have hoffset (k : Nat) : offsetOf text.length (k : Int) = min k text.length := by
    have hneg : ¬ (k : Int) < 0 := by omega
    simp [offsetOf, hneg]
  rw [between, hoffset, hoffset, slice, slice, ← List.take_eq_take_min]
  rcases Nat.le_total m text.length with hm | hm
  · rw [Nat.min_eq_left hm]
  · have hlength : (text.take n).length ≤ text.length := List.length_take_le' n text
    rw [Nat.min_eq_right hm, List.drop_eq_nil_of_le hlength,
      List.drop_eq_nil_of_le (Nat.le_trans hlength hm)]

theorem offsetOf_of_le {length : Nat} (h0 : 0 ≤ a) (hn : a ≤ length) :
    offsetOf length a = a.toNat := by
  have hneg : ¬ a < 0 := by omega
  simp only [offsetOf, hneg, ↓reduceIte]
  omega

theorem before_eq_take (h0 : 0 ≤ a) (hn : a ≤ text.length) : before text a = text.take a.toNat := by
  rw [before, offsetOf_of_le h0 hn]

theorem behind_eq_drop (h0 : 0 ≤ a) (hn : a ≤ text.length) : behind text a = text.drop a.toNat := by
  rw [behind, offsetOf_of_le h0 hn]

theorem between_eq (h0 : 0 ≤ a) (hab : a ≤ b) (hn : b ≤ text.length) :
    between text a b = (text.take b.toNat).drop a.toNat := by
  rw [between, slice, offsetOf_of_le h0 (by omega), offsetOf_of_le (by omega) hn]

theorem before_append_behind (text : List α) (a : Int) : before text a ++ behind text a = text :=
  List.take_append_drop _ text

theorem before_append_between (h0 : 0 ≤ a) (hab : a ≤ b) (hn : b ≤ text.length) :
    before text a ++ between text a b = before text b := by
  rw [before_eq_take h0 (by omega), between_eq h0 hab hn, before_eq_take (by omega) hn]
  have htake : text.take a.toNat = (text.take b.toNat).take a.toNat := by
    rw [List.take_take, Nat.min_eq_left (by omega)]
  rw [htake, List.take_append_drop]

theorem between_append (h0 : 0 ≤ a) (hab : a ≤ b) (hbc : b ≤ c) (hn : c ≤ text.length) :
    between text a b ++ between text b c = between text a c := by
  have h := before_append_between (by omega : 0 ≤ b) hbc hn
  rw [← before_append_between h0 hab (by omega), List.append_assoc,
    ← before_append_between h0 (by omega : a ≤ c) hn] at h
  exact List.append_cancel_left h

theorem length_between (h0 : 0 ≤ a) (hab : a ≤ b) (hn : b ≤ text.length) :
    (between text a b).length = (b - a).toNat := by
  rw [between_eq h0 hab hn, List.length_drop, List.length_take]
  omega

@[simp] theorem between_self (text : List α) (a : Int) : between text a a = [] := by
  simp [between, slice]

theorem between_split {u v : List α} (h0 : 0 ≤ a) (hac : a ≤ c) (hn : c ≤ text.length)
    (h : between text a c = u ++ v) :
    between text a (a + u.length) = u ∧ between text (a + u.length) c = v := by
  have hlen := length_between h0 hac hn
  rw [h, List.length_append] at hlen
  have hb : a + u.length ≤ c := by omega
  have happ := between_append h0 (by omega : a ≤ a + u.length) hb hn
  rw [h] at happ
  refine List.append_inj happ ?_
  rw [length_between h0 (by omega) (by omega)]
  omega

end CallerFirst.Text
