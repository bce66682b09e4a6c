import CallerFirst.Proofs.Java.Convert
import CallerFirst.Proofs.Java.Token.Places

/-!
# What keeps a text from being read

A text with escapes that keep its lines is read, or it is no Java, or a declaration in it cannot be
lined up with the text, or its end cuts something off: a number, a clause or an expression
(`readUnit_failsBy`). No token of it stands on a line that the text does not have.
-/

namespace CallerFirst.Java

namespace Fault

/-- Faults without a message, but for declarations that cannot be lined up. -/
def isUnnamed : Fault → Bool
  | lexical (.problem _) | parse (.unexpected ..) | malformed _ => false
  | lexical .cutOffNumber | lexical .cutOffExponent | lexical .negativeEscape => true
  | parse .endOfInput | parse .openExpression | noSuchLine => true

def isCutOff : Fault → Bool
  | lexical .cutOffNumber | lexical .cutOffExponent => true
  | parse .endOfInput | parse .openExpression => true
  | _ => false

def isMalformed : Fault → Bool
  | malformed _ => true
  | _ => false

theorem isUnnamed_iff {fault : Fault} (h : fault.isMalformed = false) :
    fault.isUnnamed = true ↔ fault.message? = none := by
  cases fault with
  | malformed => cases h
  | lexical cause => cases cause <;> simp [isUnnamed, message?]
  | parse cause => cases cause <;> simp [isUnnamed, message?]
  | noSuchLine => simp [isUnnamed, message?]

theorem isUnnamed_of_isCutOff {fault : Fault} (h : fault.isCutOff = true) :
    fault.isUnnamed = true := by
  cases fault with
  | lexical cause =>
    cases cause with
    | cutOffNumber | cutOffExponent => rfl
    | _ => cases h
  | parse cause =>
    cases cause with
    | endOfInput | openExpression => rfl
    | unexpected => cases h
  | _ => cases h

end Fault

def FailsBy (F : ε → Prop) (x : Except ε α) : Prop :=
  ∀ fault, x = .error fault → F fault

namespace FailsBy

variable {F : ε → Prop}

theorem ok (a : α) : FailsBy F (.ok a : Except ε α) :=
  nofun

theorem error (h : F fault) : FailsBy F (.error fault : Except ε α) := by
  rintro _ ⟨⟩
  exact h

theorem bind {x : Except ε β} {f : β → Except ε α} (hx : FailsBy F x)
    (hf : ∀ b, x = .ok b → FailsBy F (f b)) : FailsBy F (x >>= f) := by
  cases x with
  | error fault => exact error (hx fault rfl)
  | ok b => exact hf b rfl

theorem mapError {x : Except δ α} {f : δ → ε} (h : ∀ fault, F (f fault)) :
    FailsBy F (x.mapError f) := by
  cases x with
  | error fault => exact error (h fault)
  | ok a => exact ok a

end FailsBy

-- ---------------------------------------------------------------------------
-- Layouts
-- ---------------------------------------------------------------------------

/-- Every token stands on a line of the text. -/
def Source.HasLines (s : Source) : Prop :=
  ∀ index, ∃ n, s.offsetAt index = .ok n

section Layouts

variable {s : Source}

theorem offsetAt_failsBy (h : s.HasLines) (index : Nat) : FailsBy F (s.offsetAt index) := by
  obtain ⟨n, hn⟩ := h index
  rw [hn]
  exact .ok n

theorem endAt_failsBy (h : s.HasLines) (index : Nat) : FailsBy F (s.endAt index) :=
  .bind (offsetAt_failsBy h index) fun _ _ => .ok _

theorem span_failsBy (h : s.HasLines) (run : Run) : FailsBy F (s.span run) :=
  .bind (offsetAt_failsBy h run.first) fun _ _ => .bind (endAt_failsBy h run.last) fun _ _ => .ok _

theorem constants_failsBy (h : s.HasLines) (declarations : List α) (runs : List Run) :
    FailsBy F (Pair.constants s declarations runs) := by
  fun_induction Pair.constants s declarations runs with
  | case1 d declarations run runs ih =>
    exact .bind (span_failsBy h run) fun _ _ => .bind ih fun _ _ => .ok _
  | case2 => exact .ok _

theorem members_failsBy (h : s.HasLines) (type : String) (isBlock : α → Bool)
    (ruleName : α → String) (declarations : List α) (runs : List Run) :
    FailsBy (·.isMalformed = true) (Pair.members s type isBlock ruleName declarations runs) := by
  fun_induction Pair.members s type isBlock ruleName declarations runs with
  | case1 remaining run runs _ _ _ _ ih =>
    exact .bind (span_failsBy h run) fun _ _ => .bind ih fun _ _ => .ok _
  | case2 => exact .error rfl
  | case3 => exact .error rfl
  | case4 run runs _ _ _ _ d remaining _ _ ih =>
    exact .bind (span_failsBy h run) fun _ _ => .bind ih fun _ _ => .ok _
  | case5 => exact .ok _
  | case6 => exact .error rfl

theorem ofBody_failsBy (h : s.HasLines) (type : String) (isBlock : α → Bool)
    (ruleName : α → String) (body : Body) (constants declarations : List α) :
    FailsBy (·.isMalformed = true)
      (Pair.ofBody s type isBlock ruleName body constants declarations) := by
  unfold Pair.ofBody
  split
  · exact .error rfl
  · exact .bind (constants_failsBy h _ _) fun _ _ =>
      .bind (members_failsBy h _ _ _ _ _) fun _ _ => .ok _

theorem layoutOf_failsBy (h : s.HasLines) (head : TypeHead)
    (constants declarations : List Declaration) :
    FailsBy (·.isMalformed = true) (Convert.layoutOf s head constants declarations) := by
  unfold Convert.layoutOf
  refine .bind (.mapError fun _ => rfl) fun braces _ => ?_
  refine .bind (offsetAt_failsBy h braces.1) fun start _ => ?_
  refine .bind (offsetAt_failsBy h braces.2) fun stop _ => ?_
  refine .bind (.mapError fun _ => rfl) fun body _ => ?_
  dsimp only
  split
  · exact .bind (endAt_failsBy h _) fun _ _ => .bind (ofBody_failsBy h _ _ _ _ _ _) fun _ _ => .ok _
  · exact .bind (endAt_failsBy h _) fun _ _ => .bind (ofBody_failsBy h _ _ _ _ _ _) fun _ _ => .ok _
  · exact .bind (.ok _) fun _ _ => .bind (ofBody_failsBy h _ _ _ _ _ _) fun _ _ => .ok _

end Layouts

-- ---------------------------------------------------------------------------
-- Conversions
-- ---------------------------------------------------------------------------

namespace Convert

def FailsBy (F : Fault → Prop) (x : Convert α) : Prop :=
  ∀ p, Java.FailsBy F (x.run p)

namespace FailsBy

variable {F : Fault → Prop}

theorem pure (a : α) : FailsBy F (Pure.pure a) :=
  fun _ => .ok _

theorem bind {x : Convert β} {f : β → Convert α} (hx : FailsBy F x) (hf : ∀ b, FailsBy F (f b)) :
    FailsBy F (x >>= f) :=
  fun p => Java.FailsBy.bind (hx p) fun b _ => hf b.1 b.2

theorem lift {x : Except Fault α} (h : Java.FailsBy F x) : FailsBy F (liftM x : Convert α) :=
  fun _ => .bind h fun _ _ => .ok _

theorem bindCall (s : Scopes) (site : Position) (name : String) (arguments : List Code) :
    FailsBy F (Convert.bindCall s site name arguments) :=
  .bind (fun _ => .ok _) fun _ => .pure _

end FailsBy

variable {F : Fault → Prop} {source : Source}

def LayoutsFailBy (F : Fault → Prop) (source : Source) : Prop :=
  ∀ head constants ds, Java.FailsBy F (layoutOf source head constants ds)

mutual
theorem code_failsBy (h : LayoutsFailBy F source) (s : Scopes) (c : Code) :
    FailsBy F (code source s c) := by
  cases c with
  | literal | name | this =>
    rw [code]
    exact .pure _
  | call site qualifier member arguments =>
    rw [code]
    split
    · exact .bind (.bindCall _ _ _ _) fun _ => .bind (codes_failsBy h s arguments) fun _ => .pure _
    · exact .bind (.pure _) fun _ => .bind (codes_failsBy h s arguments) fun _ => .pure _
  | create type arguments body =>
    rw [code]
    exact .bind (codes_failsBy h s arguments) fun _ =>
      .bind (anonymousClass_failsBy h s body) fun _ => .pure _
  | createInner arguments body =>
    rw [code]
    exact .bind (codes_failsBy h s arguments) fun _ =>
      .bind (anonymousClass_failsBy h s body) fun _ => .pure _
  | createArray type dimensions parts =>
    rw [code]
    exact codes_failsBy h s parts
  | cast type operand =>
    rw [code]
    exact code_failsBy h s operand
  | binary operator left right =>
    rw [code]
    exact .bind (code_failsBy h s left) fun _ => .bind (code_failsBy h s right) fun _ => .pure _
  | conditional condition whenTrue whenFalse =>
    rw [code]
    exact .bind (code_failsBy h s condition) fun _ => .bind (code_failsBy h s whenTrue) fun _ =>
      .bind (code_failsBy h s whenFalse) fun _ => .pure _
  | select target selectorList =>
    cases target with
    | this qualifier =>
      rw [code]
      exact selectors_failsBy h s _ selectorList
    | _ =>
      rw [code]
      · exact .bind (code_failsBy h s _) fun _ =>
          .bind (selectors_failsBy h s false selectorList) fun _ => .pure _
      · exact nofun
  | declare declared parts =>
    rw [code]
    exact codes_failsBy h s parts
  | localType declaration =>
    rw [code]
    exact .bind (typeNode_failsBy h s 0 none _ declaration) fun _ => .pure _
  | primary parts =>
    rw [code]
    exact codes_failsBy h s parts
  | compound parts =>
    rw [code]
    exact codes_failsBy h s parts

theorem codes_failsBy (h : LayoutsFailBy F source) (s : Scopes) (cs : List Code) :
    FailsBy F (codes source s cs) := by
  cases cs with
  | nil =>
    rw [codes]
    exact .pure _
  | cons c cs =>
    rw [codes]
    exact .bind (code_failsBy h s c) fun _ => .bind (codes_failsBy h s cs) fun _ => .pure _

theorem selectors_failsBy (h : LayoutsFailBy F source) (s : Scopes) (behindThis : Bool)
    (cs : List Code) : FailsBy F (selectors source s behindThis cs) := by
  cases cs with
  | nil =>
    rw [selectors]
    exact .pure _
  | cons c cs =>
    cases c with
    | call site qualifier member arguments =>
      rw [selectors]
      split
      · exact .bind (.bindCall _ _ _ _) fun _ => .bind (codes_failsBy h s arguments) fun _ =>
          .bind (selectors_failsBy h s false cs) fun _ => .pure _
      · exact .bind (.pure _) fun _ => .bind (codes_failsBy h s arguments) fun _ =>
          .bind (selectors_failsBy h s false cs) fun _ => .pure _
    | _ =>
      rw [selectors]
      · exact .bind (code_failsBy h s _) fun _ =>
          .bind (selectors_failsBy h s false cs) fun _ => .pure _
      · exact nofun

theorem anonymousClass_failsBy (h : LayoutsFailBy F source) (s : Scopes)
    (body : Option (List Declaration)) : FailsBy F (anonymousClass source s body) := by
  cases body with
  | none =>
    rw [anonymousClass]
    exact .pure _
  | some declarations =>
    rw [anonymousClass]
    exact .bind (fun _ => .ok _) fun _ =>
      .bind (membersFrom_failsBy h _ _ _ _ _ declarations) fun _ => .pure _

theorem typeNode_failsBy (h : LayoutsFailBy F source) (s : Scopes) (index : Nat)
    (span : Option (Nat × Nat)) (binding : TypeBinding) (t : TypeDeclaration) :
    FailsBy F (typeNode source s index span binding t) := by
  obtain ⟨head, annotations, constants, declarations⟩ := t
  rw [typeNode]
  exact .bind (.lift (h head constants declarations)) fun _ =>
    .bind (membersFrom_failsBy h _ _ _ _ _ constants) fun _ =>
    .bind (membersFrom_failsBy h _ _ _ _ _ declarations) fun _ => .pure _

theorem membersFrom_failsBy (h : LayoutsFailBy F source) (s : Scopes) (outer : Variables)
    (index : Nat) (pairs : List (Pair Declaration)) (current : Variables) (ds : List Declaration) :
    FailsBy F (membersFrom source s outer index pairs current ds) := by
  cases ds with
  | nil =>
    rw [membersFrom]
    exact .pure _
  | cons d ds =>
    rw [membersFrom]
    exact .bind (member_failsBy h _ _ _ _ _ d) fun _ =>
      .bind (membersFrom_failsBy h _ _ _ _ _ ds) fun _ => .pure _

theorem member_failsBy (h : LayoutsFailBy F source) (s : Scopes) (outer : Variables) (index : Nat)
    (pair : Pair Declaration) (current : Variables) (d : Declaration) :
    FailsBy F (member source s outer index pair current d) := by
  cases d with
  | method header annotations parameters body =>
    rw [member]
    exact .bind (codes_failsBy h _ body) fun _ => .pure _
  | block statements =>
    rw [member]
    exact .bind (codes_failsBy h _ statements) fun _ => .pure _
  | field head annotations initializers =>
    rw [member]
    exact .bind (codes_failsBy h _ initializers) fun _ => .pure _
  | enumConstant name annotations arguments body =>
    rw [member]
    exact .bind (codes_failsBy h _ arguments) fun _ =>
      .bind (anonymousClass_failsBy h _ body) fun _ => .pure _
  | annotationMember =>
    rw [member]
    exact .pure _
  | type declaration =>
    rw [member]
    exact .bind (typeNode_failsBy h _ _ _ _ declaration) fun _ => .pure _

end

end Convert

-- ---------------------------------------------------------------------------
-- Texts
-- ---------------------------------------------------------------------------

open Escape (KeepsLines)

theorem hasLines_of_keepsLines (hlines : KeepsLines source) (h : Token.ofSource source = .ok toks) :
    (Source.ofTokens source toks).HasLines := by
  intro index
  have hstarts {t : Token} {n : Nat}
      (h : (Text.lineStarts source)[t.position.line - 1]? = some n) :
      (Source.ofTokens source toks).offset t = .ok (n + t.position.column - 1) := by
    simp only [Source.offset, Source.ofTokens, h]
  rw [Source.offsetAt, List.getD_eq_getElem?_getD]
  cases ht : (Source.ofTokens source toks).tokens[index]? with
  | none => exact ⟨_, hstarts (n := 0) rfl⟩
  | some t =>
    obtain ⟨head, line, plain, token, rest, u, v, hcut⟩ := Token.exists_cutAt hlines h ht
    have hcount := (List.getElem?_eq_some_iff.mp hcut.lineStart).1
    have hbreaks := hcut.breaks
    rw [Option.getD_some]
    exact ⟨_, hstarts (List.getElem?_eq_getElem (by omega))⟩

theorem scanFrom_failsBy (source : List Char) (fuel : Nat) (s : Token.Scan) :
    FailsBy (· ≠ .negativeEscape) (Token.scanFrom source fuel s) := by
  fun_induction Token.scanFrom source fuel s with
  | case1 | case2 => exact .ok _
  | case3 => exact .error nofun
  | case4 fuel s c rest hrest p hp =>
    refine .error ?_
    unfold Token.Scan.fault
    split <;> exact nofun
  | case5 _ _ _ _ _ _ _ ih => exact ih
  | case6 _ _ _ _ _ _ _ _ _ ih => exact .bind ih fun _ _ => .ok _

theorem ofSource_failsBy (hlines : KeepsLines source) :
    FailsBy (· ≠ .negativeEscape) (Token.ofSource source) := by
  obtain ⟨text, waits, hexpands⟩ := hlines
  rw [Token.ofSource, Escape.expand_of_expands hexpands]
  exact scanFrom_failsBy text text.length _

theorem typeNodes_failsBy {s : Source} (h : s.HasLines) (unit : CompilationUnit) :
    FailsBy (·.isMalformed = true) (typeNodes s unit) := by
  unfold typeNodes
  split
  · exact .ok _
  · exact .bind (Convert.typeNode_failsBy (layoutOf_failsBy h) _ _ _ _ _ _) fun _ _ => .ok _

/-- Of the faults without a message, only those at the end of the text are left. -/
theorem readUnit_failsBy (hlines : KeepsLines text.toList) :
    FailsBy (fun fault => fault.isUnnamed = true → fault.isCutOff = true) (readUnit text) := by
  unfold readUnit
  refine .bind ?_ fun tokens htokens => .bind ?_ fun parsed _ => .bind ?_ fun _ _ => .ok _
  · intro fault hfault hunnamed
    cases hscan : Token.ofSource text.toList with
    | ok => simp [hscan, Except.mapError] at hfault
    | error lexical =>
      simp only [hscan, Except.mapError, Except.error.injEq] at hfault
      subst hfault
      have hplain := ofSource_failsBy hlines lexical hscan
      cases lexical with
      | negativeEscape => exact absurd rfl hplain
      | problem => cases hunnamed
      | cutOffNumber | cutOffExponent => rfl
  · refine .mapError fun fault hunnamed => ?_
    cases fault with
    | unexpected => cases hunnamed
    | endOfInput | openExpression => rfl
  · have hhas := hasLines_of_keepsLines hlines (ok_of_mapError htokens)
    intro fault hfault hunnamed
    have hmalformed := typeNodes_failsBy hhas parsed fault hfault
    cases fault with
    | malformed => cases hunnamed
    | _ => cases hmalformed

end CallerFirst.Java
