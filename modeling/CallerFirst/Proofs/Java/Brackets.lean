import CallerFirst.Proofs.Java.Body
import Mathlib.Data.List.Basic

/-!
# Brackets

Reading tokens one by one opens and closes brackets; where brackets are nested, each closes the one
that was opened last. `closing?_nested`, `memberEnd?_nested` and `constantEnd_nested`: the counts by
which a body, a member and a constant are told to end are those of the open brackets, so what ends
there is nested itself.
-/

namespace CallerFirst.Java

def bracketPairs : List (String × String) :=
  [("(", ")"), ("[", "]"), ("\x7b", "\x7d")]

/-- Brackets that are open behind a token, innermost first, each as the one that closes it. -/
def openBehind (opened : List String) (t : Token) : Option (List String) :=
  match bracketPairs.find? (·.1 = t.text) with
  | some pair => some (pair.2 :: opened)
  | none =>
    if bracketPairs.any (·.2 = t.text) then
      if opened.head? = some t.text then some opened.tail else none
    else some opened

def openBehindAll (opened : List String) : List Token → Option (List String)
  | [] => some opened
  | t :: ts => (openBehind opened t).bind fun opened => openBehindAll opened ts

def Nested (ts : List Token) : Prop :=
  openBehindAll [] ts = some []

instance (ts : List Token) : Decidable (Nested ts) :=
  inferInstanceAs (Decidable (openBehindAll [] ts = some []))

variable {opened opened' around : List String} {t : Token} {ts us : List Token}
  {index m : Nat}

/-- A token opens a bracket, closes the one that was opened last, or leaves brackets as they are. -/
inductive Turn (t : Token) : List String → List String → Prop
  | opens {opened : List String} {closing : String} (h : (t.text, closing) ∈ bracketPairs) :
    Turn t opened (closing :: opened)
  | closes {opened : List String} (h : t.text ∈ bracketPairs.map Prod.snd) :
    Turn t (t.text :: opened) opened
  | passes {opened : List String} (h : t.text ∉ bracketPairs.map Prod.fst)
    (h' : t.text ∉ bracketPairs.map Prod.snd) : Turn t opened opened

theorem openBehind_eq_some : openBehind opened t = some opened' ↔ Turn t opened opened' := by
  constructor
  · intro h
    unfold openBehind at h
    split at h
    · rename_i pair hpair
      cases h
      have htext : pair.1 = t.text := by simpa using List.find?_some hpair
      exact .opens (htext ▸ List.mem_of_find?_eq_some hpair)
    · rename_i hnone
      split at h
      · rename_i hclosing
        split at h
        · rename_i hhead
          cases h
          rw [← List.cons_head?_tail hhead]
          exact .closes (by simpa [List.any_eq_true] using hclosing)
        · cases h
      · rename_i hclosing
        cases h
        refine .passes (fun hmem => ?_) (by simpa using hclosing)
        obtain ⟨pair, hpair, htext⟩ := List.mem_map.mp hmem
        exact List.find?_eq_none.mp hnone pair hpair (by simpa using htext)
  · intro h
    cases h with
    | opens h =>
      simp [bracketPairs] at h
      rcases h with ⟨ht, rfl⟩ | ⟨ht, rfl⟩ | ⟨ht, rfl⟩ <;> simp [openBehind, bracketPairs, ht]
    | closes h =>
      simp [bracketPairs] at h
      rcases h with ht | ht | ht <;> simp [openBehind, bracketPairs, ht]
    | passes h h' =>
      have hnone : bracketPairs.find? (·.1 = t.text) = none :=
        List.find?_eq_none.mpr fun pair hpair htext =>
          h (List.mem_map.mpr ⟨pair, hpair, by simpa using htext⟩)
      have hany : bracketPairs.any (·.2 = t.text) = false :=
        List.any_eq_false.mpr fun pair hpair htext =>
          h' (List.mem_map.mpr ⟨pair, hpair, by simpa using htext⟩)
      simp [openBehind, hnone, hany]

theorem openBehindAll_cons :
    openBehindAll opened (t :: ts) = some opened' ↔
      ∃ next, Turn t opened next ∧ openBehindAll next ts = some opened' := by
  simp only [openBehindAll, Option.bind_eq_some_iff, openBehind_eq_some]

theorem openBehindAll_append :
    openBehindAll opened (ts ++ us) =
      (openBehindAll opened ts).bind fun opened => openBehindAll opened us := by
  induction ts generalizing opened with
  | nil => rfl
  | cons t ts ih => simp only [List.cons_append, openBehindAll, Option.bind_assoc, ih]

theorem Nested.append (h : Nested ts) (h' : Nested us) : Nested (ts ++ us) := by
  rw [Nested, openBehindAll_append, show openBehindAll [] ts = some [] from h]
  exact h'

theorem Nested.of_append (h : Nested (ts ++ us)) (hts : Nested ts) : Nested us := by
  rwa [Nested, openBehindAll_append, show openBehindAll [] ts = some [] from hts] at h

namespace Body

/-- What a brace closes is nested: the braces that are counted are those that are open. -/
theorem closing?_nested (hopen : openBehindAll (opened ++ "\x7d" :: around) ts = some opened')
    (h : closing? index (opened.count "\x7d" + 1) ts = some m) :
    ∃ k, m = index + k ∧ openBehindAll opened (ts.take k) = some [] := by
  induction ts generalizing index opened with
  | nil => cases h
  | cons t ts ih =>
    have hnext {next : List String} (hturn : Turn t opened next)
        (hrest : openBehindAll (next ++ "\x7d" :: around) ts = some opened')
        (h : closing? (index + 1) (next.count "\x7d" + 1) ts = some m) :
        ∃ k, m = index + k ∧ openBehindAll opened ((t :: ts).take k) = some [] := by
      obtain ⟨k, rfl, hk⟩ := ih hrest h
      exact ⟨k + 1, by omega, openBehindAll_cons.mpr ⟨next, hturn, hk⟩⟩
    obtain ⟨next, hturn, hrest⟩ := openBehindAll_cons.mp hopen
    unfold closing? at h
    generalize hopened : opened ++ "\x7d" :: around = all at hturn
    cases hturn with
    | @opens _ closing hpair =>
      subst hopened
      refine hnext (.opens hpair) hrest ?_
      simp [bracketPairs] at hpair
      rcases hpair with ⟨ht, rfl⟩ | ⟨ht, rfl⟩ | ⟨ht, rfl⟩ <;> simpa [ht] using h
    | closes hclosing =>
      cases opened with
      | nil =>
        obtain ⟨ht, rfl⟩ := List.cons.inj hopened
        simp [← ht] at h
        exact ⟨0, by omega, rfl⟩
      | cons closing opened =>
        obtain ⟨rfl, rfl⟩ := List.cons.inj hopened
        refine hnext (.closes hclosing) hrest ?_
        simp [bracketPairs] at hclosing
        rcases hclosing with ht | ht | ht <;> simpa [ht] using h
    | passes hnot hnot' =>
      subst hopened
      refine hnext (.passes hnot hnot') hrest ?_
      simp [bracketPairs] at hnot hnot'
      simpa [hnot, hnot'] using h

def Closing (opened : List String) : Prop :=
  ∀ closing ∈ opened, closing ∈ bracketPairs.map Prod.snd

theorem Closing.turn (h : Closing opened) (hturn : Turn t opened opened') : Closing opened' := by
  cases hturn with
  | opens hpair => exact List.forall_mem_cons.mpr ⟨List.mem_map_of_mem hpair, h⟩
  | closes => exact fun closing hc => h closing (.tail _ hc)
  | passes => exact h

structure Nesting.Counts (n : Nesting) (opened : List String) : Prop where
  closing : Closing opened
  parentheses : n.parentheses = opened.count ")" + opened.count "]"
  braces : n.braces = opened.count "\x7d"

theorem Nesting.Counts.eq_nil {n : Nesting} (h : n.Counts opened) (hp : n.parentheses = 0)
    (hb : n.braces = 0) : opened = [] := by
  have := h.parentheses
  have := h.braces
  refine List.eq_nil_iff_forall_not_mem.mpr fun closing hmem => ?_
  have hcount := List.count_pos_iff.mpr hmem
  have hclosing := h.closing closing hmem
  simp [bracketPairs] at hclosing
  rcases hclosing with rfl | rfl | rfl <;> omega

theorem memberEnd?_nested {n : Nesting} (hn : n.Counts opened)
    (hopen : openBehindAll opened ts = some [])
    (h : memberEnd? inAnnotationType index n ts = some m) :
    ∃ k, m = index + k ∧ openBehindAll opened (ts.take (k + 1)) = some [] := by
  induction ts generalizing index opened n with
  | nil => cases h
  | cons t ts ih =>
    obtain ⟨next, hturn, hrest⟩ := openBehindAll_cons.mp hopen
    have hnext {n : Nesting} (h : memberEnd? inAnnotationType (index + 1) n ts = some m)
        (hn : n.Counts next) :
        ∃ k, m = index + k ∧ openBehindAll opened ((t :: ts).take (k + 1)) = some [] := by
      obtain ⟨k, rfl, hk⟩ := ih hn hrest h
      exact ⟨k + 1, by omega, openBehindAll_cons.mpr ⟨next, hturn, hk⟩⟩
    have hstop (hm : index = m) (hnil : next = []) :
        ∃ k, m = index + k ∧ openBehindAll opened ((t :: ts).take (k + 1)) = some [] :=
      ⟨0, hm.symm, openBehindAll_cons.mpr ⟨next, hturn, hnil ▸ rfl⟩⟩
    have hclosing := hn.closing.turn hturn
    have hparentheses := hn.parentheses
    have hbraces := hn.braces
    unfold memberEnd? at h
    dsimp only at h
    cases hturn with
    | @opens _ closing hpair =>
      simp [bracketPairs] at hpair
      rcases hpair with ⟨ht, rfl⟩ | ⟨ht, rfl⟩ | ⟨ht, rfl⟩ <;> simp [ht] at h <;>
        exact hnext h ⟨hclosing, by simp; omega, by simp; omega⟩
    | closes hpair =>
      simp [bracketPairs] at hpair
      rcases hpair with ht | ht | ht
      · simp [ht] at h hparentheses hbraces
        exact hnext h ⟨hclosing, by simp; omega, by simp; omega⟩
      · simp [ht] at h hparentheses hbraces
        exact hnext h ⟨hclosing, by simp; omega, by simp; omega⟩
      · simp [ht] at h hparentheses hbraces
        split at h
        · rename_i hend
          have hcounts : Nesting.Counts { n with braces := n.braces - 1 } _ :=
            ⟨hclosing, by simp; omega, by simp; omega⟩
          exact hstop (Option.some_inj.mp h) (hcounts.eq_nil hend.2.1 (by simpa using hend.1))
        · exact hnext h ⟨hclosing, by simp; omega, by simp; omega⟩
    | passes hnot hnot' =>
      simp [bracketPairs] at hnot hnot'
      simp [hnot, hnot'] at h
      split at h
      · rename_i hend
        split at h
        · exact hstop (Option.some_inj.mp h) (hn.eq_nil hend.1 hend.2)
        · split at h <;> exact hnext h ⟨hclosing, hparentheses, hbraces⟩
      · exact hnext h ⟨hclosing, hparentheses, hbraces⟩

/-- A constant ends among the tokens, since no bracket is open behind the last. -/
theorem constantEnd_nested {depth : Int} (hdepth : depth = opened.length)
    (hopen : openBehindAll opened ts = some []) (hts : ts ≠ []) :
    ∃ k, constantEnd index depth ts = index + k ∧ k < ts.length ∧
      openBehindAll opened (ts.take (k + 1)) = some [] := by
  induction ts generalizing index opened depth with
  | nil => exact absurd rfl hts
  | cons t ts ih =>
    obtain ⟨next, hturn, hrest⟩ := openBehindAll_cons.mp hopen
    unfold constantEnd
    dsimp only
    have hdepth : (if ["(", "\x7b", "["].contains t.text then depth + 1
        else if [")", "\x7d", "]"].contains t.text then depth - 1 else depth) = next.length := by
      cases hturn with
      | opens hpair =>
        simp [bracketPairs] at hpair
        rcases hpair with ⟨ht, -⟩ | ⟨ht, -⟩ | ⟨ht, -⟩ <;> simp [ht, hdepth]
      | closes hpair =>
        rw [List.length_cons] at hdepth
        simp [bracketPairs] at hpair
        rcases hpair with ht | ht | ht <;> simp [ht] <;> omega
      | passes hnot hnot' =>
        simp [bracketPairs] at hnot hnot'
        simp [hnot, hnot', hdepth]
    rw [hdepth]
    split
    · rename_i hend
      have hnil : next = [] := List.length_eq_zero_iff.mp (by simpa using hend.1)
      exact ⟨0, rfl, Nat.succ_pos _, openBehindAll_cons.mpr ⟨next, hturn, hnil ▸ rfl⟩⟩
    · rename_i hend
      have hne : ts ≠ [] := by
        rintro rfl
        obtain rfl := Option.some.inj hrest
        simp at hend
      obtain ⟨k, hk, hlt, htake⟩ := ih rfl hrest hne
      refine ⟨k + 1, by rw [hk]; omega, by simpa using hlt, ?_⟩
      exact openBehindAll_cons.mpr ⟨next, hturn, htake⟩

end Body

end CallerFirst.Java
