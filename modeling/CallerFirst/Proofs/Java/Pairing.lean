import CallerFirst.Proofs.Java.Scan
import CallerFirst.Proofs.Java.Token.InOrder

/-!
# One run for each declaration

Constants go with their runs one by one. Members go with the runs that declare something, and blocks
without statements stand for themselves, so one list is used up faster than the other (`InTurn`).
`ofBody_linesUp`: where counts and kinds are the same in both, every run and every declaration is used
once, in the order of the source; where they are not, the body is malformed.
-/

namespace CallerFirst.Java

-- ---------------------------------------------------------------------------
-- Runs have spans
-- ---------------------------------------------------------------------------

namespace Body

variable {tokens ts : List Token} {index : Nat} {kind : TypeKind}

theorem constantEnd_le (depth : Int) : constantEnd index depth ts ≤ index + ts.length := by
  induction ts generalizing index depth with
  | nil => exact le_refl _
  | cons t ts ih =>
    have hnext (depth : Int) : constantEnd (index + 1) depth ts ≤ index + (t :: ts).length :=
      (ih depth).trans (by simp only [List.length_cons]; omega)
    unfold constantEnd
    dsimp only
    generalize (if ["(", "\x7b", "["].contains t.text then depth + 1
      else if [")", "\x7d", "]"].contains t.text then depth - 1 else depth) = depth
    split
    · exact Nat.le_add_right _ _
    · exact hnext depth

/-- A constant without end reaches over the closing brace behind it, and no other comes behind it. -/
theorem ConstantScan.le_stop (h : ConstantScan index ts r) :
    ∀ run ∈ r.1, run.first ≤ index + ts.length ∧ run.last ≤ index + ts.length := by
  induction h with
  | done => exact fun _ hrun => absurd hrun List.not_mem_nil
  | terminator => exact fun _ hrun => absurd hrun List.not_mem_nil
  | @comma index t rest r _ _ ih =>
    intro run hrun
    have := ih run hrun
    simp only [List.length_cons]
    omega
  | @constant index last t rest r _ hlast hrest ih =>
    have hle : last ≤ index + (t :: rest).length := hlast ▸ constantEnd_le 0
    refine List.forall_mem_cons.mpr ⟨⟨Nat.le_add_right _ _, hle⟩, fun run hrun => ?_⟩
    have hbound := ih run hrun
    rw [List.length_drop] at hbound
    by_cases hend : last = index + (t :: rest).length
    · rw [List.drop_eq_nil_of_le (by omega)] at hrest
      cases hrest
      cases hrun
    · omega

theorem BodyScan.le_closeIndex {body : Body} {openIndex closeIndex : Nat}
    (hscan : BodyScan tokens kind openIndex closeIndex r) (hr : r = .ok body)
    (hlt : openIndex < closeIndex) (hstop : closeIndex ≤ tokens.length) :
    ∀ run ∈ body.constants ++ body.members, run.first ≤ closeIndex ∧ run.last ≤ closeIndex := by
  have hmember {inAnnotationType : Bool} {index : Nat} {members : List Run}
      (h : MemberScan inAnnotationType index ((tokens.take closeIndex).drop index) (.ok members)) :
      ∀ run ∈ members, run.first ≤ closeIndex ∧ run.last ≤ closeIndex := by
    intro run hrun
    have := (h.runs hstop rfl rfl).parts.inside run hrun
    omega
  cases hscan with
  | @other r hkind hmembers =>
    cases r with
    | error => cases hr
    | ok members =>
      cases hr
      exact hmember hmembers
  | @enum constants index terminator r hkind hconstants hmembers =>
    cases r with
    | error => cases hr
    | ok members =>
      cases hr
      refine List.forall_mem_append.mpr ⟨fun run hrun => ?_, hmember hmembers⟩
      have := hconstants.le_stop run hrun
      rw [List.length_drop, List.length_take, Nat.min_eq_left hstop] at this
      omega

end Body

namespace Source

variable {chars : List Char} {tokens : List Token} {head : TypeHead} {body : Body}

theorem exists_span (htokens : Token.ofSource chars = .ok tokens)
    (hscan : scanType (.ofTokens chars tokens) head = .ok (body, places)) :
    ∀ run ∈ body.constants ++ body.members, ∃ span, (ofTokens chars tokens).span run = .ok span := by
  simp only [scanType, bind_eq_ok] at hscan
  obtain ⟨⟨openIndex, closeIndex⟩, hbraces, _, -, bodyEnd, hend, found, hbody, _, -, hscan⟩ := hscan
  cases hscan
  obtain ⟨-, hlt, t, ht, -⟩ := Body.braces_eq_ok (ok_of_mapError hbraces)
  obtain ⟨hclose, rfl⟩ := List.getElem?_eq_some_iff.mp ht
  have hoffset {i : Nat} (hi : i ≤ closeIndex) : ∃ n, (ofTokens chars tokens).offsetAt i = .ok n := by
    have hat {j : Nat} (hj : j < tokens.length) :
        (ofTokens chars tokens).offsetAt j = (ofTokens chars tokens).offset tokens[j] := by
      simp [offsetAt, ofTokens, hj]
    rw [hat hclose] at hend
    rw [hat (hi.trans_lt hclose)]
    exact Token.exists_offset_of_le htokens hi hclose hend
  intro run hrun
  obtain ⟨hfirst, hlast⟩ := (Body.ofTokens_scan tokens head.kind openIndex closeIndex).le_closeIndex
    (ok_of_mapError hbody) hlt hclose.le run hrun
  obtain ⟨start, hstart⟩ := hoffset hfirst
  obtain ⟨stop, hstop⟩ := hoffset hlast
  have hend : (ofTokens chars tokens).endAt run.last =
      .ok (stop + (tokens.getD run.last default).text.length) :=
    (bind_eq_ok _ _ _).mpr ⟨stop, hstop, rfl⟩
  exact ⟨_, (bind_eq_ok _ _ _).mpr ⟨start, hstart, (bind_eq_ok _ _ _).mpr ⟨_, hend, rfl⟩⟩⟩

end Source

-- ---------------------------------------------------------------------------
-- Members with their runs
-- ---------------------------------------------------------------------------

namespace Pair

variable {α : Type} {s : Source} {isBlock : α → Bool}
variable {body : Body} {runs : List Run} {declarations constantDeclarations : List α}
variable {pairs front back : List (Pair α)}

/-- Runs that declare something: all but blocks without statements. -/
def declaring (s : Source) (runs : List Run) : List Run :=
  runs.filter (!Body.isEmptyInitializer s.tokens ·)

def isStaticRun (s : Source) (run : Run) : Bool :=
  (s.tokens.getD run.first default).text == "static" && Body.isInitializer s.tokens run

/-- Declarations and runs used up from the front, with the pairs they make. -/
inductive InTurn (s : Source) (isBlock : α → Bool) : List α → List Run → List (Pair α) → Prop
  | nil : InTurn s isBlock [] [] []
  | empty {ds runs pairs run span} (hempty : Body.isEmptyInitializer s.tokens run = true)
    (hspan : s.span run = .ok span) (hrest : InTurn s isBlock ds runs pairs) :
    InTurn s isBlock ds (run :: runs) (⟨none, some span, isStaticRun s run⟩ :: pairs)
  | declared {d ds runs pairs run span} (hempty : Body.isEmptyInitializer s.tokens run = false)
    (hkind : isBlock d = Body.isInitializer s.tokens run) (hspan : s.span run = .ok span)
    (hrest : InTurn s isBlock ds runs pairs) :
    InTurn s isBlock (d :: ds) (run :: runs) (⟨some d, some span, isStaticRun s run⟩ :: pairs)

theorem members_cons_empty {run : Run} {span : Nat × Nat} (type : String)
    (ruleName : α → String) (declarations : List α)
    (hempty : Body.isEmptyInitializer s.tokens run = true) (hspan : s.span run = .ok span) :
    members s type isBlock ruleName declarations (run :: runs) =
      (members s type isBlock ruleName declarations runs).map
        (⟨none, some span, isStaticRun s run⟩ :: ·) := by
  rw [members.eq_def]
  simp only [hempty, ↓reduceIte, hspan]
  cases members s type isBlock ruleName declarations runs <;> rfl

theorem members_cons_declared {run : Run} {span : Nat × Nat} (type : String)
    (ruleName : α → String) (d : α) (ds : List α)
    (hempty : Body.isEmptyInitializer s.tokens run = false)
    (hkind : isBlock d = Body.isInitializer s.tokens run) (hspan : s.span run = .ok span) :
    members s type isBlock ruleName (d :: ds) (run :: runs) =
      (members s type isBlock ruleName ds runs).map
        (⟨some d, some span, isStaticRun s run⟩ :: ·) := by
  rw [members]
  simp only [hempty, hkind, bne_self_eq_false, Bool.false_eq_true, ↓reduceIte, hspan]
  cases members s type isBlock ruleName ds runs <;> rfl

theorem members_cases (hspans : ∀ run ∈ runs, ∃ span, s.span run = .ok span) (type : String)
    (ruleName : α → String) (declarations : List α) :
    ((declaring s runs).map (Body.isInitializer s.tokens) = declarations.map isBlock ∧
      ∃ pairs, members s type isBlock ruleName declarations runs = .ok pairs ∧
        InTurn s isBlock declarations runs pairs) ∨
    ((declaring s runs).map (Body.isInitializer s.tokens) ≠ declarations.map isBlock ∧
      ∃ reason, members s type isBlock ruleName declarations runs = .error (.malformed reason)) := by
  induction runs generalizing declarations with
  | nil =>
    cases declarations with
    | nil => exact .inl ⟨rfl, [], rfl, .nil⟩
    | cons d ds => exact .inr ⟨by simp [declaring], _, rfl⟩
  | cons run runs ih =>
    obtain ⟨⟨span, hspan⟩, hspans⟩ := List.forall_mem_cons.mp hspans
    cases hempty : Body.isEmptyInitializer s.tokens run with
    | true =>
      have hdeclaring : declaring s (run :: runs) = declaring s runs := by simp [declaring, hempty]
      rw [hdeclaring, members_cons_empty type ruleName declarations hempty hspan]
      refine (ih hspans _).imp (And.imp id ?_) (And.imp id ?_)
      · rintro ⟨pairs, hpairs, hturn⟩
        exact ⟨_, by rw [hpairs]; rfl, .empty hempty hspan hturn⟩
      · rintro ⟨reason, herror⟩
        exact ⟨reason, by rw [herror]; rfl⟩
    | false =>
      have hdeclaring : declaring s (run :: runs) = run :: declaring s runs := by
        simp [declaring, hempty]
      rw [hdeclaring]
      cases declarations with
      | nil => exact .inr ⟨by simp, .tooManyRuns type, by simp only [members, hempty]; rfl⟩
      | cons d ds =>
        by_cases hkind : isBlock d = Body.isInitializer s.tokens run
        · have hkinds : (run :: declaring s runs).map (Body.isInitializer s.tokens) =
              (d :: ds).map isBlock ↔
                (declaring s runs).map (Body.isInitializer s.tokens) = ds.map isBlock := by
            simp [hkind]
          rw [Ne, hkinds, members_cons_declared type ruleName d ds hempty hkind hspan]
          refine (ih hspans _).imp (And.imp id ?_) (And.imp id ?_)
          · rintro ⟨pairs, hpairs, hturn⟩
            exact ⟨_, by rw [hpairs]; rfl, .declared hempty hkind hspan hturn⟩
          · rintro ⟨reason, herror⟩
            exact ⟨reason, by rw [herror]; rfl⟩
        · refine .inr ⟨by simp [Ne.symm hkind],
            .mismatch type (s.tokens.getD run.first default).position.line (ruleName d), ?_⟩
          rw [members]
          simp only [hempty, Bool.false_eq_true, ↓reduceIte, bne_iff_ne.mpr hkind]
          rfl

theorem InTurn.length_eq (h : InTurn s isBlock declarations runs pairs) :
    pairs.length = runs.length := by
  induction h with
  | nil => rfl
  | empty _ _ _ ih => simpa using ih
  | declared _ _ _ _ ih => simpa using ih

theorem InTurn.used (h : InTurn s isBlock declarations runs pairs) :
    pairs.filterMap (·.declaration) = declarations := by
  induction h with
  | nil => rfl
  | empty _ _ _ ih => simpa using ih
  | declared _ _ _ _ ih => simpa using ih

/-- A run stands with no declaration, or with the one that as many come before as runs that declare
something come before the run. -/
theorem InTurn.pair_at (h : InTurn s isBlock declarations runs pairs) {i : Nat}
    (hi : runs[i]? = some run) :
    ∃ span, s.span run = .ok span ∧
      if Body.isEmptyInitializer s.tokens run = true then
        pairs[i]? = some ⟨none, some span, isStaticRun s run⟩
      else ∃ d, declarations[(declaring s (runs.take i)).length]? = some d ∧
        isBlock d = Body.isInitializer s.tokens run ∧
        pairs[i]? = some ⟨some d, some span, isStaticRun s run⟩ := by
  induction h generalizing i with
  | nil => cases hi
  | @empty ds runs pairs first span hempty hspan _ ih =>
    cases i with
    | zero =>
      obtain rfl : first = run := by simpa using hi
      exact ⟨span, hspan, by simp [hempty]⟩
    | succ i =>
      have hcount : declaring s ((first :: runs).take (i + 1)) = declaring s (runs.take i) := by
        simp [declaring, hempty]
      rw [hcount]
      exact ih (by simpa using hi)
  | @declared d ds runs pairs first span hempty hkind hspan _ ih =>
    cases i with
    | zero =>
      obtain rfl : first = run := by simpa using hi
      exact ⟨span, hspan, by simp [hempty, hkind, declaring]⟩
    | succ i =>
      have hcount : (declaring s ((first :: runs).take (i + 1))).length =
          (declaring s (runs.take i)).length + 1 := by
        simp [declaring, hempty]
      rw [hcount]
      exact ih (by simpa using hi)

theorem constants_pairs (hspans : ∀ run ∈ runs, ∃ span, s.span run = .ok span)
    (hlength : runs.length = constantDeclarations.length) :
    ∃ pairs, constants s constantDeclarations runs = .ok pairs ∧ pairs.length = runs.length ∧
      ∀ (k : Nat) (c : α) (run : Run), constantDeclarations[k]? = some c → runs[k]? = some run →
        ∃ span, s.span run = .ok span ∧ pairs[k]? = some ⟨some c, some span, false⟩ := by
  induction constantDeclarations generalizing runs with
  | nil =>
    obtain rfl : runs = [] := List.length_eq_zero_iff.mp hlength
    exact ⟨[], rfl, rfl, nofun⟩
  | cons c cs ih =>
    cases runs with
    | nil => cases hlength
    | cons run runs =>
      obtain ⟨⟨span, hspan⟩, hspans⟩ := List.forall_mem_cons.mp hspans
      obtain ⟨pairs, hpairs, hcount, hat⟩ := ih hspans (Nat.succ.inj hlength)
      refine ⟨⟨some c, some span, false⟩ :: pairs, ?_, by simpa using hcount, ?_⟩
      · simp only [constants, hspan, hpairs]
        rfl
      · intro k c' run' hc hrun
        cases k with
        | zero =>
          obtain rfl : c = c' := by simpa using hc
          obtain rfl : run = run' := by simpa using hrun
          exact ⟨span, hspan, rfl⟩
        | succ k => exact hat k c' run' (by simpa using hc) (by simpa using hrun)

-- ---------------------------------------------------------------------------
-- Bodies
-- ---------------------------------------------------------------------------

/-- As many constants as runs of them, as many other declarations as runs that declare something, and
each of the kind of its run. -/
structure Fits (s : Source) (isBlock : α → Bool) (body : Body)
    (constantDeclarations declarations : List α) : Prop where
  constants : body.constants.length = constantDeclarations.length
  members : (declaring s body.members).length = declarations.length
  kinds : ∀ (k : Nat) (run : Run) (d : α), (declaring s body.members)[k]? = some run →
    declarations[k]? = some d → isBlock d = Body.isInitializer s.tokens run

/-- Pairs for all the runs of a body, in the order of the source. -/
structure LinesUp (s : Source) (isBlock : α → Bool) (body : Body)
    (constantDeclarations declarations : List α) (front back : List (Pair α)) : Prop where
  constants_length : front.length = body.constants.length
  /-- Each constant has the run of its number. -/
  constant : ∀ (k : Nat) (c : α) (run : Run), constantDeclarations[k]? = some c →
    body.constants[k]? = some run →
    ∃ span, s.span run = .ok span ∧ front[k]? = some ⟨some c, some span, false⟩
  members_length : back.length = body.members.length
  /-- A run without statements stands for itself. -/
  empty : ∀ (i : Nat) (run : Run), body.members[i]? = some run →
    Body.isEmptyInitializer s.tokens run = true →
    ∃ span, s.span run = .ok span ∧ back[i]? = some ⟨none, some span, isStaticRun s run⟩
  /-- Any other run has the declaration of its number among the runs that declare something. -/
  declared : ∀ (i : Nat) (run : Run), body.members[i]? = some run →
    Body.isEmptyInitializer s.tokens run = false →
    ∃ span d, s.span run = .ok span ∧
      declarations[(declaring s (body.members.take i)).length]? = some d ∧
      isBlock d = Body.isInitializer s.tokens run ∧
      back[i]? = some ⟨some d, some span, isStaticRun s run⟩
  used : back.filterMap (·.declaration) = declarations

theorem fits_iff (hconstants : body.constants.length = constantDeclarations.length) :
    Fits s isBlock body constantDeclarations declarations ↔
      (declaring s body.members).map (Body.isInitializer s.tokens) = declarations.map isBlock := by
  constructor
  · intro h
    refine List.ext_getElem (by simpa using h.members) fun k hrun hd => ?_
    simp only [List.getElem_map]
    exact (h.kinds k _ _ (List.getElem?_eq_getElem (by simpa using hrun))
      (List.getElem?_eq_getElem (by simpa using hd))).symm
  · intro h
    refine ⟨hconstants, by simpa using congrArg List.length h, fun k run d hrun hd => ?_⟩
    have hk := congrArg (·[k]?) h
    simpa [hrun, hd, eq_comm] using hk

/-- Declarations are paired with the runs of a body that was found if they fit them, and are malformed
if not. -/
theorem ofBody_linesUp {chars : List Char} {tokens : List Token} {head : TypeHead}
    {places : Nat × Nat × Nat}
    (htokens : Token.ofSource chars = .ok tokens)
    (hscan : Source.scanType (.ofTokens chars tokens) head = .ok (body, places))
    (type : String) (isBlock : α → Bool) (ruleName : α → String)
    (constantDeclarations declarations : List α) :
    (Fits (.ofTokens chars tokens) isBlock body constantDeclarations declarations ∧
      ∃ front back, ofBody (.ofTokens chars tokens) type isBlock ruleName body constantDeclarations
          declarations = .ok (front, back) ∧
        LinesUp (.ofTokens chars tokens) isBlock body constantDeclarations declarations front back) ∨
    (¬Fits (.ofTokens chars tokens) isBlock body constantDeclarations declarations ∧
      ∃ reason, ofBody (.ofTokens chars tokens) type isBlock ruleName body constantDeclarations
        declarations = .error (.malformed reason)) := by
  obtain ⟨hfront, hback⟩ := List.forall_mem_append.mp (Source.exists_span htokens hscan)
  unfold ofBody
  by_cases hlength : body.constants.length = constantDeclarations.length
  · obtain ⟨front, hconstants, hcount, hconstant⟩ := constants_pairs hfront hlength
    simp only [hlength, bne_self_eq_false, Bool.false_eq_true, ↓reduceIte, hconstants]
    rw [fits_iff hlength]
    refine (members_cases hback type ruleName declarations).imp (And.imp id ?_) (And.imp id ?_)
    · rintro ⟨back, hmembers, hturn⟩
      refine ⟨front, back, ?_, hcount, hconstant, hturn.length_eq, ?_, ?_, hturn.used⟩
      · rw [hmembers]
        rfl
      · intro i run hi hempty
        obtain ⟨span, hspan, hpair⟩ := hturn.pair_at hi
        rw [if_pos hempty] at hpair
        exact ⟨span, hspan, hpair⟩
      · intro i run hi hempty
        obtain ⟨span, hspan, hpair⟩ := hturn.pair_at hi
        rw [if_neg (by simp [hempty])] at hpair
        obtain ⟨d, hd, hkind, hpair⟩ := hpair
        exact ⟨span, d, hspan, hd, hkind, hpair⟩
    · rintro ⟨reason, herror⟩
      rw [herror]
      exact ⟨reason, rfl⟩
  · refine .inr ⟨fun h => hlength h.constants,
      .constantCount type body.constants.length constantDeclarations.length, ?_⟩
    rw [if_pos (by simpa using hlength)]
    rfl

def emptyBlocks : List Char :=
  ("enum E\x7bA(f(1)),B\x7bvoid g(){}\x7d;{}int[] x=\x7b1,2\x7d;" ++
    "static{f();}static{};void h(){}\x7d").toList

theorem ofBody_linesUp_emptyBlocks :
    ∃ tokens head body places, Token.ofSource emptyBlocks = .ok tokens ∧
      Source.scanType (.ofTokens emptyBlocks tokens) head = .ok (body, places) ∧
      body.members.length = 5 ∧
      (∃ front back, ofBody (.ofTokens emptyBlocks tokens) "E" (· == "block") id body ["A", "B"]
          ["x", "block", "h"] = .ok (front, back) ∧
        LinesUp (.ofTokens emptyBlocks tokens) (· == "block") body ["A", "B"] ["x", "block", "h"]
          front back) ∧
      ∃ reason, ofBody (.ofTokens emptyBlocks tokens) "E" (· == "block") id body ["A", "B"]
        ["x", "h", "block"] = .error (.malformed reason) := by
  let head : TypeHead := { kind := .enum, name := "E", position := ⟨1, 1⟩ }
  have h : ((Token.ofSource emptyBlocks).toOption.any fun tokens =>
      (Source.scanType (.ofTokens emptyBlocks tokens) head).toOption.any fun found =>
        decide (found.1.constants.length = 2 ∧ found.1.members.length = 5 ∧
          (declaring (.ofTokens emptyBlocks tokens) found.1.members).map
            (Body.isInitializer tokens) = [false, true, false])) = true := by
    decide +kernel
  simp only [Option.any_eq_true, decide_eq_true_eq] at h
  obtain ⟨tokens, htokens, ⟨body, places⟩, hscan, hconstants, hmembers, hkinds⟩ := h
  have htokens := toOption_eq_some htokens
  have hscan := toOption_eq_some hscan
  have hfits (declarations : List String) :
      Fits (.ofTokens emptyBlocks tokens) (· == "block") body ["A", "B"] declarations ↔
        [false, true, false] = declarations.map (· == "block") := by
    rw [fits_iff hconstants, ← hkinds]
    rfl
  refine ⟨tokens, head, body, places, htokens, hscan, hmembers, ?_, ?_⟩
  · have hpairs := ofBody_linesUp htokens hscan "E" (· == "block") id ["A", "B"] ["x", "block", "h"]
    exact (hpairs.resolve_right fun hnot => hnot.1 ((hfits _).mpr (by decide))).2
  · have hpairs := ofBody_linesUp htokens hscan "E" (· == "block") id ["A", "B"] ["x", "h", "block"]
    exact (hpairs.resolve_left fun hfit => absurd ((hfits _).mp hfit.1) (by decide)).2

end Pair

end CallerFirst.Java
