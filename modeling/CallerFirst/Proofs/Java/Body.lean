import CallerFirst.Java.Body
import CallerFirst.Proofs.Except
import Mathlib.Data.Nat.Basic

/-!
# Where the runs of members stand

`ofTokens_stands`: members stand behind the opening brace of a body or the semicolon behind the
constants of an enum. Between them there are semicolons only, each ends in a semicolon or brace, and
the closing brace follows the last.
-/

namespace CallerFirst.Java.Body

variable {tokens ts : List Token} {index m : Nat}

def HasText (tokens : List Token) (index : Nat) (texts : List String) : Prop :=
  ∃ t, tokens[index]? = some t ∧ t.text ∈ texts

theorem HasText.of_cons (h : HasText ts k texts) (t : Token) : HasText (t :: ts) (k + 1) texts := by
  obtain ⟨u, hu, htext⟩ := h
  exact ⟨u, by simpa using hu, htext⟩

theorem hasText_head {t : Token} (h : t.text ∈ texts) : HasText (t :: ts) 0 texts :=
  ⟨t, rfl, h⟩

theorem closing?_eq_some (h : closing? index depth ts = some m) :
    ∃ k, m = index + k ∧ HasText ts k ["\x7d"] := by
  induction ts generalizing index depth with
  | nil => cases h
  | cons t ts ih =>
    have hnext {depth : Nat} (h : closing? (index + 1) depth ts = some m) :
        ∃ k, m = index + k ∧ HasText (t :: ts) k ["\x7d"] := by
      obtain ⟨k, rfl, hk⟩ := ih h
      exact ⟨k + 1, by omega, hk.of_cons t⟩
    unfold closing? at h
    split at h
    · exact hnext h
    · split at h
      · rename_i hclose
        split at h
        · cases h
          exact ⟨0, rfl, hasText_head (by simpa using hclose)⟩
        · exact hnext h
      · exact hnext h

theorem memberEnd?_eq_some {n : Nesting} (h : memberEnd? inAnnotationType index n ts = some m) :
    ∃ k, m = index + k ∧ HasText ts k [";", "\x7d"] := by
  induction ts generalizing index n with
  | nil => cases h
  | cons t ts ih =>
    have hnext {n : Nesting} (h : memberEnd? inAnnotationType (index + 1) n ts = some m) :
        ∃ k, m = index + k ∧ HasText (t :: ts) k [";", "\x7d"] := by
      obtain ⟨k, rfl, hk⟩ := ih h
      exact ⟨k + 1, by omega, hk.of_cons t⟩
    unfold memberEnd? at h
    dsimp only at h
    split at h
    · exact hnext h
    split at h
    · exact hnext h
    split at h
    · exact hnext h
    split at h
    · rename_i hclose
      split at h
      · cases h
        exact ⟨0, rfl, hasText_head (by simp [beq_iff_eq.mp hclose])⟩
      · exact hnext h
    split at h
    · split at h
      · rename_i hsemicolon
        cases h
        exact ⟨0, rfl, hasText_head (by simp [beq_iff_eq.mp hsemicolon])⟩
      split at h
      · exact hnext h
      · exact hnext h
    · exact hnext h

/-- What stands between an index and `stop`: runs with semicolons between them. -/
inductive Runs (tokens : List Token) (stop : Nat) : Nat → List Run → Prop
  | nil {i} (hempty : ∀ k, i ≤ k → k < stop → HasText tokens k [";"]) : Runs tokens stop i []
  | cons {i run runs} (hfirst : i ≤ run.first)
      (hempty : ∀ k, i ≤ k → k < run.first → HasText tokens k [";"])
      (hrun : run.first ≤ run.last) (hlast : run.last < stop)
      (hend : HasText tokens run.last [";", "\x7d"])
      (hnext : run.last + 1 < stop → ¬HasText tokens (run.last + 1) [";"])
      (hrest : Runs tokens stop (run.last + 1) runs) : Runs tokens stop i (run :: runs)

theorem hasText_from (h : HasText tokens index texts)
    (hrest : ∀ k, index + 1 ≤ k → k < n → HasText tokens k texts) :
    ∀ k, index ≤ k → k < n → HasText tokens k texts := by
  intro k hk hn
  rcases Nat.eq_or_lt_of_le hk with rfl | hk
  · exact h
  · exact hrest k hk hn

theorem Runs.behind_semicolon (h : HasText tokens index [";"])
    (hr : Runs tokens stop (index + 1) runs) : Runs tokens stop index runs := by
  cases hr with
  | nil hempty => exact .nil (hasText_from h hempty)
  | cons hfirst hempty hrun hlast hend hnext hrest =>
    exact .cons (by omega) (hasText_from h hempty) hrun hlast hend hnext hrest

theorem Runs.stop_eq (h : Runs tokens stop index runs) (hrun : runs.getLast? = some run) :
    stop = run.last + 1 := by
  induction h with
  | nil => cases hrun
  | @cons i first rest _ _ _ hlast _ hnext hrest ih =>
    cases rest with
    | cons second rest => exact ih (by simpa using hrun)
    | nil =>
      obtain rfl : first = run := by simpa using hrun
      by_contra hne
      have hlt : first.last + 1 < stop := by omega
      cases hrest with
      | nil hempty => exact hnext hlt (hempty _ (le_refl _) hlt)

theorem hasText_inside (hts : ts = (tokens.take stop).drop index) :
    HasText ts k texts ↔ index + k < stop ∧ HasText tokens (index + k) texts := by
  simp only [HasText, hts, List.getElem?_drop, List.getElem?_take]
  split
  · simp [*]
  · simp [*]

theorem drop_inside (hts : ts = (tokens.take stop).drop index) (k : Nat) :
    ts.drop k = (tokens.take stop).drop (index + k) := by
  rw [hts, List.drop_drop]

theorem hasText_drop : HasText (ts.drop j) k texts ↔ HasText ts (j + k) texts := by
  simp only [HasText, List.getElem?_drop]

theorem semicolons_cons (t : Token) (ts : List Token) :
    semicolons (t :: ts) = if t.text == ";" then semicolons ts + 1 else 0 := by
  unfold semicolons
  rw [List.takeWhile_cons]
  split <;> rfl

theorem hasText_semicolons (h : k < semicolons ts) : HasText ts k [";"] := by
  induction ts generalizing k with
  | nil => cases h
  | cons t ts ih =>
    rw [semicolons_cons] at h
    split at h
    · rename_i ht
      cases k with
      | zero => exact hasText_head (by simp [beq_iff_eq.mp ht])
      | succ k => exact (ih (by omega)).of_cons t
    · cases h

theorem not_hasText_semicolons (ts : List Token) : ¬HasText ts (semicolons ts) [";"] := by
  induction ts with
  | nil =>
    rintro ⟨t, ht, -⟩
    cases ht
  | cons t ts ih =>
    rw [semicolons_cons]
    split
    · rintro ⟨u, hu, htext⟩
      exact ih ⟨u, by simpa using hu, htext⟩
    · rename_i ht
      rintro ⟨u, hu, htext⟩
      cases hu
      simp at ht htext
      exact ht htext

/-- The last token of a member that ends `k` tokens on, with the semicolons behind it. -/
theorem hasText_last (hts : ts = (tokens.take stop).drop index)
    (hk : HasText ts k [";", "\x7d"]) (hlast : last = index + k + semicolons (ts.drop (k + 1))) :
    last < stop ∧ HasText tokens last [";", "\x7d"] ∧
      (last + 1 < stop → ¬HasText tokens (last + 1) [";"]) := by
  have hend : HasText ts (k + semicolons (ts.drop (k + 1))) [";", "\x7d"] := by
    rcases Nat.eq_zero_or_pos (semicolons (ts.drop (k + 1))) with hzero | hpos
    · rwa [hzero]
    · have hsemi : HasText (ts.drop (k + 1)) (semicolons (ts.drop (k + 1)) - 1) [";"] :=
        hasText_semicolons (by omega)
      rw [hasText_drop, show k + 1 + (semicolons (ts.drop (k + 1)) - 1) =
        k + semicolons (ts.drop (k + 1)) by omega] at hsemi
      obtain ⟨u, hu, htext⟩ := hsemi
      exact ⟨u, hu, List.mem_cons.mpr (.inl (List.mem_singleton.mp htext))⟩
  rw [hasText_inside hts, ← Nat.add_assoc, ← hlast] at hend
  refine ⟨hend.1, hend.2, fun hlt h => ?_⟩
  have hnot := mt hasText_drop.mpr (not_hasText_semicolons (ts.drop (k + 1)))
  rw [hasText_inside hts, show index + (k + 1 + semicolons (ts.drop (k + 1))) = last + 1 by omega]
    at hnot
  exact hnot ⟨hlt, h⟩

/-- The loop over members: a round passes over a semicolon, or takes a member with the semicolons
behind it. -/
inductive MemberScan (inAnnotationType : Bool) :
    Nat → List Token → Except Malformed (List Run) → Prop
  | done {index : Nat} : MemberScan inAnnotationType index [] (.ok [])
  | semicolon {index : Nat} {t : Token} {rest : List Token} {r : Except Malformed (List Run)}
    (ht : t.text = ";") (hrest : MemberScan inAnnotationType (index + 1) rest r) :
    MemberScan inAnnotationType index (t :: rest) r
  | endless {index : Nat} {t : Token} {rest : List Token} (ht : t.text ≠ ";")
    (hend : memberEnd? inAnnotationType index {} (t :: rest) = none) :
    MemberScan inAnnotationType index (t :: rest) (.error (.notTerminated t.position.line))
  | member {index k last : Nat} {t : Token} {rest : List Token} {r : Except Malformed (List Run)}
    (ht : t.text ≠ ";") (hend : memberEnd? inAnnotationType index {} (t :: rest) = some (index + k))
    (hlast : last = index + k + semicolons ((t :: rest).drop (k + 1)))
    (hrest : MemberScan inAnnotationType (last + 1) ((t :: rest).drop (last + 1 - index)) r) :
    MemberScan inAnnotationType index (t :: rest) (r.map (⟨index, last⟩ :: ·))

theorem memberRuns_scan (inAnnotationType : Bool) {n : Nat} (hn : ts.length ≤ n) :
    MemberScan inAnnotationType index ts (memberRuns inAnnotationType n index ts) := by
  induction n generalizing index ts with
  | zero =>
    obtain rfl : ts = [] := List.length_eq_zero_iff.mp (Nat.le_zero.mp hn)
    exact .done
  | succ n ih =>
    cases ts with
    | nil => exact .done
    | cons t rest =>
      unfold memberRuns
      split
      · rename_i ht
        exact .semicolon (beq_iff_eq.mp ht) (ih (by simpa using hn))
      · rename_i ht
        split
        · rename_i hend
          exact .endless (by simpa using ht) hend
        · rename_i m hend
          obtain ⟨k, rfl, -⟩ := memberEnd?_eq_some hend
          rw [show index + k + 1 - index = k + 1 by omega]
          have hshorter : ((t :: rest).drop
              (index + k + semicolons ((t :: rest).drop (k + 1)) + 1 - index)).length ≤ n := by
            simp only [List.length_drop, List.length_cons] at hn ⊢
            omega
          have hmember := MemberScan.member (by simpa using ht) hend rfl (ih hshorter)
          dsimp only
          generalize memberRuns inAnnotationType n _ _ = r at hmember ⊢
          cases r <;> exact hmember

theorem MemberScan.runs {runs : List Run} (h : MemberScan inAnnotationType index ts r)
    (hstop : stop ≤ tokens.length) (hts : ts = (tokens.take stop).drop index) (hr : r = .ok runs) :
    Runs tokens stop index runs := by
  induction h generalizing runs with
  | done =>
    cases hr
    have := List.drop_eq_nil_iff.mp hts.symm
    rw [List.length_take, Nat.min_eq_left hstop] at this
    exact .nil fun k hk hlt => by omega
  | @semicolon index t rest r ht _ ih =>
    have hhead : HasText (t :: rest) 0 [";"] := hasText_head (by simp [ht])
    exact .behind_semicolon ((hasText_inside hts).mp hhead).2 (ih (drop_inside hts 1) hr)
  | endless => cases hr
  | @member index k last t rest r _ hend hlast _ ih =>
    cases r with
    | error => cases hr
    | ok more =>
      cases hr
      obtain ⟨j, hj, hk⟩ := memberEnd?_eq_some hend
      obtain rfl : k = j := by omega
      obtain ⟨hlt, hend, hnext⟩ := hasText_last hts hk hlast
      refine .cons (le_refl index) (fun j hj hlt => absurd hj (Nat.not_le.mpr hlt))
        (show index ≤ last by omega) hlt hend hnext (ih ?_ rfl)
      rw [drop_inside hts, show index + (last + 1 - index) = last + 1 by omega]

theorem memberRuns_runs (hstop : stop ≤ tokens.length) (hn : ts.length ≤ n)
    (hts : ts = (tokens.take stop).drop index)
    (h : memberRuns inAnnotationType n index ts = .ok runs) : Runs tokens stop index runs :=
  (memberRuns_scan inAnnotationType hn).runs hstop hts h

-- ---------------------------------------------------------------------------
-- Braces and constants
-- ---------------------------------------------------------------------------

theorem exists_of_braces {openIndex closeIndex : Nat}
    (h : braces start tokens = .ok (openIndex, closeIndex)) :
    ∃ t rest, tokens.drop openIndex = t :: rest ∧ t.text = "\x7b" ∧
      closing? (openIndex + 1) 1 rest = some closeIndex := by
  unfold braces at h
  dsimp only at h
  split at h
  · rename_i close hclose
    obtain ⟨rfl, rfl⟩ := Prod.mk.inj (Except.ok.inj h)
    generalize hlead : ((tokens.drop start).takeWhile (·.text != "\x7b")).length = lead at hclose ⊢
    have hdrop : tokens.drop (start + lead) = (tokens.drop start).dropWhile (·.text != "\x7b") := by
      rw [← List.drop_drop, ← hlead]
      exact (congrArg (List.drop _) List.takeWhile_append_dropWhile.symm).trans List.drop_left
    cases hrest : tokens.drop (start + lead) with
    | nil =>
      rw [hrest] at hclose
      cases hclose
    | cons t rest =>
      have ht : t.text = "\x7b" := by
        have := List.head?_dropWhile_not (·.text != "\x7b") (tokens.drop start)
        rw [← hdrop, hrest] at this
        simpa using this
      rw [hrest] at hclose
      simp only [closing?, ht, beq_self_eq_true, ↓reduceIte] at hclose
      exact ⟨t, rest, rfl, ht, hclose⟩
  · cases h

theorem braces_eq_ok {openIndex closeIndex : Nat}
    (h : braces start tokens = .ok (openIndex, closeIndex)) :
    HasText tokens openIndex ["\x7b"] ∧ openIndex < closeIndex ∧
      HasText tokens closeIndex ["\x7d"] := by
  obtain ⟨t, rest, hdrop, ht, hclose⟩ := exists_of_braces h
  have hopen : HasText (tokens.drop openIndex) 0 ["\x7b"] := hdrop ▸ hasText_head (by simp [ht])
  obtain ⟨k, rfl, hk⟩ := closing?_eq_some hclose
  have hclosing := hk.of_cons t
  rw [← hdrop, hasText_drop] at hclosing
  refine ⟨by simpa using hasText_drop.mp hopen, by omega, ?_⟩
  rwa [show openIndex + 1 + k = openIndex + (k + 1) by omega]

theorem le_constantEnd (depth : Int) : index ≤ constantEnd index depth ts := by
  induction ts generalizing index depth with
  | nil => exact le_refl index
  | cons t ts ih =>
    have hnext (depth : Int) : index ≤ constantEnd (index + 1) depth ts :=
      le_trans (Nat.le_succ index) (ih depth)
    unfold constantEnd
    dsimp only
    generalize (if ["(", "\x7b", "["].contains t.text then depth + 1
      else if [")", "\x7d", "]"].contains t.text then depth - 1 else depth) = depth
    split
    · exact le_refl index
    · exact hnext depth

/-- The loop over constants: a round passes over a comma or takes a constant, and a semicolon ends
it. -/
inductive ConstantScan : Nat → List Token → List Run × Nat × Option Nat → Prop
  | done {index : Nat} : ConstantScan index [] ([], index, none)
  | terminator {index : Nat} {t : Token} {rest : List Token} (ht : t.text = ";") :
    ConstantScan index (t :: rest) ([], index + 1, some index)
  | comma {index : Nat} {t : Token} {rest : List Token} {r : List Run × Nat × Option Nat}
    (ht : t.text = ",") (hrest : ConstantScan (index + 1) rest r) : ConstantScan index (t :: rest) r
  | constant {index last : Nat} {t : Token} {rest : List Token} {r : List Run × Nat × Option Nat}
    (ht : t.text ∉ [";", ","]) (hlast : last = constantEnd index 0 (t :: rest))
    (hrest : ConstantScan (last + 1) ((t :: rest).drop (last + 1 - index)) r) :
    ConstantScan index (t :: rest) (⟨index, last⟩ :: r.1, r.2)

theorem constantRuns_scan {n : Nat} (hn : ts.length ≤ n) :
    ConstantScan index ts (constantRuns n index ts) := by
  induction n generalizing index ts with
  | zero =>
    obtain rfl : ts = [] := List.length_eq_zero_iff.mp (Nat.le_zero.mp hn)
    exact .done
  | succ n ih =>
    cases ts with
    | nil => exact .done
    | cons t rest =>
      unfold constantRuns
      split
      · rename_i ht
        exact .terminator (beq_iff_eq.mp ht)
      · rename_i ht
        split
        · rename_i ht
          exact .comma (beq_iff_eq.mp ht) (ih (by simpa using hn))
        · rename_i ht'
          refine .constant (by simpa using And.intro ht ht') rfl (ih ?_)
          have hle : index ≤ constantEnd index 0 (t :: rest) := le_constantEnd 0
          simp only [List.length_drop, List.length_cons] at hn ⊢
          omega

theorem ConstantScan.spec (h : ConstantScan index ts r) :
    (r.2.2 = none ∧ index + ts.length ≤ r.2.1) ∨
      ∃ k, r.2.2 = some (index + k) ∧ r.2.1 = index + k + 1 ∧ HasText ts k [";"] := by
  induction h with
  | done => exact .inl ⟨rfl, le_refl _⟩
  | terminator ht => exact .inr ⟨0, rfl, rfl, hasText_head (by simp [ht])⟩
  | @comma index t rest r _ _ ih =>
    obtain ⟨hnone, hle⟩ | ⟨k, hsome, hstop, hk⟩ := ih
    · exact .inl ⟨hnone, by simp only [List.length_cons]; omega⟩
    · exact .inr ⟨k + 1, by rw [hsome]; congr 1; omega, by omega, hk.of_cons t⟩
  | @constant index last t rest r _ hlast _ ih =>
    have hle : index ≤ last := hlast ▸ le_constantEnd 0
    obtain ⟨hnone, hbound⟩ | ⟨k, hsome, hstop, hk⟩ := ih
    · refine .inl ⟨hnone, ?_⟩
      simp only [List.length_drop, List.length_cons] at hbound ⊢
      omega
    · rw [hasText_drop] at hk
      refine .inr ⟨last + 1 - index + k, by rw [hsome]; congr 1; omega, ?_, hk⟩
      dsimp only
      omega

/-- Index of the token behind which members stand: the semicolon behind constants, or the opening
brace. -/
def lead (body : Body) : Nat :=
  body.terminator.getD body.openIndex

def behind (body : Body) : Nat :=
  (body.members.getLast?.elim body.lead (·.last)) + 1

/-- The members of a body with the tokens around them. -/
structure Stands (tokens : List Token) (body : Body) : Prop where
  lead : HasText tokens body.lead ["\x7b", ";"]
  constants : body.terminator = none → body.constants = []
  runs : Runs tokens body.closeIndex (body.lead + 1) body.members
  closing : HasText tokens body.closeIndex ["\x7d"]

theorem Stands.closeIndex_eq (h : Stands tokens body) (hmembers : body.members ≠ []) :
    body.closeIndex = body.behind := by
  obtain ⟨run, hrun⟩ := List.getLast?_isSome.mpr hmembers |> Option.isSome_iff_exists.mp
  rw [h.runs.stop_eq hrun, behind, hrun]
  rfl

theorem ofTokens_stands {openIndex closeIndex : Nat}
    (hbraces : braces first tokens = .ok (openIndex, closeIndex))
    (h : ofTokens kind openIndex closeIndex tokens = .ok body) (hmembers : body.members ≠ []) :
    Stands tokens body := by
  obtain ⟨hopen, hlt, hclose⟩ := braces_eq_ok hbraces
  have hstop : closeIndex ≤ tokens.length := by
    obtain ⟨t, ht, -⟩ := hclose
    exact le_of_lt (List.getElem?_eq_some_iff.mp ht).1
  simp only [ofTokens, bind_eq_ok] at h
  obtain ⟨members, hmemberRuns, h⟩ := h
  cases h
  have hruns := memberRuns_runs hstop (le_refl _) rfl hmemberRuns
  by_cases hkind : kind = .enum
  · simp only [hkind, ↓reduceIte] at hruns hmembers ⊢
    have hscan : ConstantScan (openIndex + 1) ((tokens.take closeIndex).drop (openIndex + 1)) _ :=
      constantRuns_scan (le_refl _)
    have hspec := hscan.spec
    generalize constantRuns _ (openIndex + 1) ((tokens.take closeIndex).drop (openIndex + 1)) = found
      at hruns hspec ⊢
    obtain ⟨constants, stop, terminator⟩ := found
    dsimp only at hruns hspec ⊢
    obtain ⟨-, hle⟩ | ⟨k, rfl, rfl, hk⟩ := hspec
    · refine absurd ?_ hmembers
      simp only [List.length_drop, List.length_take, Nat.min_eq_left hstop] at hle
      cases hruns with
      | nil => rfl
      | cons hfirst _ hrun hlast => omega
    · refine ⟨?_, nofun, hruns, hclose⟩
      obtain ⟨t, ht, htext⟩ := ((hasText_inside rfl).mp hk).2
      exact ⟨t, ht, List.mem_cons_of_mem _ htext⟩
  · simp only [hkind, ↓reduceIte] at hruns ⊢
    refine ⟨?_, fun _ => rfl, hruns, hclose⟩
    obtain ⟨t, ht, htext⟩ := hopen
    exact ⟨t, ht, List.mem_cons.mpr (.inl (List.mem_singleton.mp htext))⟩

end CallerFirst.Java.Body
