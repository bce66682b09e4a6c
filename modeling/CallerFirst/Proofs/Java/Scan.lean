import CallerFirst.Proofs.Java.Brackets
import CallerFirst.Proofs.Java.CutOff
import CallerFirst.Proofs.Java.Unit
import CallerFirst.Proofs.Slices

/-!
# Cutting a body into runs

`scanType_splits`: where brackets are nested, the loops over a body come to an end, and what they find
splits the body without loss. Runs stand inside its braces one behind the other, constants before
members, only separators are left between them, and brackets are nested in each. What can go wrong is
that the body is malformed, or that a token stands on a line that the text does not have.
-/

namespace CallerFirst.Java

namespace Body

variable {tokens ts : List Token} {index stop i : Nat} {runs : List Run} {strays : List String}

-- ---------------------------------------------------------------------------
-- Runs with other tokens between them
-- ---------------------------------------------------------------------------

/-- What stands between an index and `stop`: runs, with tokens of some texts around them. -/
inductive Parts (tokens : List Token) (strays : List String) (stop : Nat) : Nat → List Run → Prop
  | nil {i : Nat} (hstrays : ∀ k, i ≤ k → k < stop → HasText tokens k strays) :
    Parts tokens strays stop i []
  | cons {i : Nat} {run : Run} {runs : List Run} (hfirst : i ≤ run.first)
    (hstrays : ∀ k, i ≤ k → k < run.first → HasText tokens k strays) (hrun : run.first ≤ run.last)
    (hlast : run.last < stop) (hrest : Parts tokens strays stop (run.last + 1) runs) :
    Parts tokens strays stop i (run :: runs)

theorem Runs.parts (h : Runs tokens stop i runs) : Parts tokens [";"] stop i runs := by
  induction h with
  | nil hempty => exact .nil hempty
  | cons hfirst hempty hrun hlast _ _ _ ih => exact .cons hfirst hempty hrun hlast ih

theorem Runs.ends (h : Runs tokens stop i runs) :
    ∀ run ∈ runs, HasText tokens run.last [";", "\x7d"] := by
  induction h with
  | nil => exact fun _ hrun => absurd hrun List.not_mem_nil
  | cons _ _ _ _ hend _ _ ih => exact List.forall_mem_cons.mpr ⟨hend, ih⟩

theorem Parts.behind_stray (h : HasText tokens index strays)
    (hp : Parts tokens strays stop (index + 1) runs) : Parts tokens strays stop index runs := by
  cases hp with
  | nil hstrays => exact .nil (hasText_from h hstrays)
  | cons hfirst hstrays hrun hlast hrest =>
    exact .cons (by omega) (hasText_from h hstrays) hrun hlast hrest

theorem Parts.inside (h : Parts tokens strays stop i runs) :
    ∀ run ∈ runs, i ≤ run.first ∧ run.first ≤ run.last ∧ run.last < stop := by
  induction h with
  | nil => exact fun _ hrun => absurd hrun List.not_mem_nil
  | cons hfirst _ hrun hlast _ ih =>
    refine List.forall_mem_cons.mpr ⟨⟨hfirst, hrun, hlast⟩, fun run hmem => ?_⟩
    obtain ⟨hbehind, hrest⟩ := ih run hmem
    exact ⟨by omega, hrest⟩

theorem Parts.inOrder (h : Parts tokens strays stop i runs) :
    runs.Pairwise fun r r' => r.last < r'.first := by
  induction h with
  | nil => exact .nil
  | cons _ _ _ _ hrest ih => exact .cons (fun run hmem => (hrest.inside run hmem).1) ih

theorem Parts.covered (h : Parts tokens strays stop i runs) (hk : i ≤ k) (hstop : k < stop) :
    (∃ run ∈ runs, run.first ≤ k ∧ k ≤ run.last) ∨ HasText tokens k strays := by
  induction h with
  | nil hstrays => exact .inr (hstrays k hk hstop)
  | @cons i run runs _ hstrays _ _ _ ih =>
    rcases Nat.lt_or_ge k run.first with hlt | hge
    · exact .inr (hstrays k hk hlt)
    · rcases Nat.lt_or_ge run.last k with hlt | hle
      · exact (ih hlt).imp (fun ⟨run, hmem, hin⟩ => ⟨run, .tail _ hmem, hin⟩) id
      · exact .inl ⟨run, List.mem_cons_self, hge, hle⟩

-- ---------------------------------------------------------------------------
-- Brackets in runs
-- ---------------------------------------------------------------------------

theorem nested_semicolons (ts : List Token) : Nested (ts.take (semicolons ts)) := by
  induction ts with
  | nil => rfl
  | cons t ts ih =>
    rw [semicolons_cons]
    split
    · rename_i ht
      refine openBehindAll_cons.mpr ⟨[], .passes ?_ ?_, ih⟩ <;>
        simp [beq_iff_eq.mp ht, bracketPairs]
    · rfl

theorem take_inside (hts : ts = (tokens.take stop).drop index) (h : n ≤ stop) :
    ts.take (n - index) = Text.slice tokens index n := by
  rw [hts, Text.slice, ← List.drop_take, List.take_take, Nat.min_eq_left h]

theorem nested_separator {t : Token} (ht : t.text ∈ [";", ","]) : Nested [t] := by
  refine openBehindAll_cons.mpr ⟨[], .passes ?_ ?_, rfl⟩ <;>
    simp at ht <;> rcases ht with ht | ht <;> simp [ht, bracketPairs]

theorem nested_behind_separator {t : Token} (h : Nested (t :: ts)) (ht : t.text ∈ [";", ","]) :
    Nested ts :=
  Nested.of_append (show Nested ([t] ++ ts) from h) (nested_separator ht)

theorem MemberScan.nested {runs : List Run} (h : MemberScan inAnnotationType index ts r)
    (hts : ts = (tokens.take stop).drop index) (hnested : Nested ts) (hr : r = .ok runs) :
    ∀ run ∈ runs, Nested (Text.slice tokens run.first (run.last + 1)) := by
  induction h generalizing runs with
  | done =>
    cases hr
    exact fun _ hrun => absurd hrun List.not_mem_nil
  | @semicolon index t rest r ht _ ih =>
    exact ih (drop_inside hts 1) (nested_behind_separator hnested (by simp [ht])) hr
  | endless => cases hr
  | @member index k last t rest r _ hend hlast _ ih =>
    cases r with
    | error => cases hr
    | ok more =>
      cases hr
      obtain ⟨j, hj, hk⟩ := memberEnd?_eq_some hend
      obtain ⟨j', hj', htake⟩ := memberEnd?_nested ⟨by simp [Closing], rfl, rfl⟩ hnested hend
      obtain rfl : k = j := by omega
      obtain rfl : k = j' := by omega
      obtain ⟨hlt, -⟩ := hasText_last hts hk hlast
      have hrun : Nested ((t :: rest).take (last + 1 - index)) := by
        rw [hlast, show index + k + semicolons ((t :: rest).drop (k + 1)) + 1 - index =
          k + 1 + semicolons ((t :: rest).drop (k + 1)) by omega, List.take_add]
        exact Nested.append htake (nested_semicolons _)
      have hrest : Nested ((t :: rest).drop (last + 1 - index)) :=
        Nested.of_append (by rwa [List.take_append_drop]) hrun
      refine List.forall_mem_cons.mpr ⟨?_, ih ?_ hrest rfl⟩
      · rwa [← take_inside hts hlt]
      · rw [drop_inside hts, show index + (last + 1 - index) = last + 1 by omega]

/-- Index of the semicolon that ends the constants, or of the brace that does. -/
def constantStop (stop : Nat) (r : List Run × Nat × Option Nat) : Nat :=
  r.2.2.getD stop

theorem ConstantScan.parts (h : ConstantScan index ts r) (hstop : stop ≤ tokens.length)
    (hts : ts = (tokens.take stop).drop index) (hnested : Nested ts) :
    Parts tokens [","] (constantStop stop r) index r.1 ∧
      (∀ run ∈ r.1, Nested (Text.slice tokens run.first (run.last + 1))) ∧
      Nested ((tokens.take stop).drop r.2.1) := by
  induction h with
  | @done index =>
    have := List.drop_eq_nil_iff.mp hts.symm
    rw [List.length_take, Nat.min_eq_left hstop] at this
    refine ⟨.nil fun k hk hlt => ?_, by simp, hts ▸ hnested⟩
    simp only [constantStop, Option.getD_none] at hlt
    omega
  | @terminator index t rest ht =>
    refine ⟨.nil fun k hk hlt => absurd hk (Nat.not_le.mpr hlt), by simp, ?_⟩
    have hrest : rest = (tokens.take stop).drop (index + 1) := drop_inside hts 1
    exact hrest ▸ nested_behind_separator hnested (by simp [ht])
  | @comma index t rest r ht _ ih =>
    have hhead : HasText (t :: rest) 0 [","] := hasText_head (by simp [ht])
    obtain ⟨hparts, hruns⟩ := ih (drop_inside hts 1)
      (nested_behind_separator hnested (by simp [ht]))
    exact ⟨hparts.behind_stray ((hasText_inside hts).mp hhead).2, hruns⟩
  | @constant index last t rest r _ hlast hscan ih =>
    obtain ⟨k, hk, hlt, htake⟩ : ∃ k, constantEnd index 0 (t :: rest) = index + k ∧
        k < (t :: rest).length ∧ Nested ((t :: rest).take (k + 1)) :=
      constantEnd_nested rfl hnested (List.cons_ne_nil t rest)
    obtain rfl : last = index + k := hlast.trans hk
    have hlast : index + k < stop := by
      rw [hts, List.length_drop, List.length_take, Nat.min_eq_left hstop] at hlt
      omega
    have hrun : Nested ((t :: rest).take (index + k + 1 - index)) := by
      rwa [show index + k + 1 - index = k + 1 by omega]
    obtain ⟨hparts, hruns, hbehind⟩ := ih
      (by rw [drop_inside hts, show index + (index + k + 1 - index) = index + k + 1 by omega])
      (Nested.of_append (by rwa [List.take_append_drop]) hrun)
    refine ⟨.cons (le_refl index) (fun j hj hlt => absurd hj (Nat.not_le.mpr hlt))
      (Nat.le_add_right index k) ?_ hparts, List.forall_mem_cons.mpr ⟨?_, hruns⟩, hbehind⟩
    · show index + k < constantStop stop r
      obtain ⟨hnone, -⟩ | ⟨j, hsome, -⟩ := hscan.spec
      · rwa [constantStop, hnone]
      · rw [constantStop, hsome, Option.getD_some]
        omega
    · rwa [← take_inside hts hlast]

-- ---------------------------------------------------------------------------
-- Bodies
-- ---------------------------------------------------------------------------

def InPrefix (kind : TypeKind) (body : Body) (k : Nat) : Prop :=
  kind = .enum ∧ (∀ index, body.terminator = some index → k < index) ∧
    ∀ run ∈ body.members, k < run.first

/-- The runs of a body hold its tokens without loss. -/
structure Splits (tokens : List Token) (kind : TypeKind) (body : Body) : Prop where
  opening : HasText tokens body.openIndex ["\x7b"]
  closing : HasText tokens body.closeIndex ["\x7d"]
  whole : Nested (Text.slice tokens (body.openIndex + 1) body.closeIndex)
  inside : ∀ run ∈ body.constants ++ body.members,
    body.openIndex < run.first ∧ run.first ≤ run.last ∧ run.last < body.closeIndex
  inOrder : (body.constants ++ body.members).Pairwise fun r r' => r.last < r'.first
  terminator : ∀ index, body.terminator = some index → HasText tokens index [";"] ∧
    (∀ run ∈ body.constants, run.last < index) ∧ ∀ run ∈ body.members, index < run.first
  covered : ∀ k, body.openIndex < k → k < body.closeIndex →
    (∃ run ∈ body.constants ++ body.members, run.first ≤ k ∧ k ≤ run.last) ∨
      HasText tokens k [";"] ∨ (InPrefix kind body k ∧ HasText tokens k [","])
  nested : ∀ run ∈ body.constants ++ body.members,
    Nested (Text.slice tokens run.first (run.last + 1))
  ends : ∀ run ∈ body.members, HasText tokens run.last [";", "\x7d"]

/-- The loops over a body, those over the constants of an enum first. -/
inductive BodyScan (tokens : List Token) (kind : TypeKind) (openIndex closeIndex : Nat) :
    Except Malformed Body → Prop
  | enum {constants : List Run} {index : Nat} {terminator : Option Nat}
    {r : Except Malformed (List Run)} (hkind : kind = .enum)
    (hconstants : ConstantScan (openIndex + 1) ((tokens.take closeIndex).drop (openIndex + 1))
      (constants, index, terminator))
    (hmembers : MemberScan false index ((tokens.take closeIndex).drop index) r) :
    BodyScan tokens kind openIndex closeIndex
      (r.map fun members => ⟨openIndex, closeIndex, constants, terminator, members⟩)
  | other {r : Except Malformed (List Run)} (hkind : kind ≠ .enum)
    (hmembers : MemberScan (kind = .annotationType) (openIndex + 1)
      ((tokens.take closeIndex).drop (openIndex + 1)) r) :
    BodyScan tokens kind openIndex closeIndex
      (r.map fun members => ⟨openIndex, closeIndex, [], none, members⟩)

theorem ofTokens_scan (tokens : List Token) (kind : TypeKind) (openIndex closeIndex : Nat) :
    BodyScan tokens kind openIndex closeIndex (ofTokens kind openIndex closeIndex tokens) := by
  by_cases hkind : kind = .enum
  · have hconstants : ConstantScan (openIndex + 1) ((tokens.take closeIndex).drop (openIndex + 1)) _ :=
      constantRuns_scan (le_refl _)
    simp only [ofTokens, hkind, ↓reduceIte]
    generalize constantRuns _ (openIndex + 1) _ = found at hconstants ⊢
    obtain ⟨constants, index, terminator⟩ := found
    have hmembers : MemberScan (TypeKind.enum = .annotationType) index
        ((tokens.take closeIndex).drop index) _ := memberRuns_scan _ (le_refl _)
    dsimp only
    generalize memberRuns _ _ _ _ = r at hmembers ⊢
    cases r <;> exact .enum rfl hconstants hmembers
  · have hmembers : MemberScan (kind = .annotationType) (openIndex + 1)
        ((tokens.take closeIndex).drop (openIndex + 1)) _ := memberRuns_scan _ (le_refl _)
    simp only [ofTokens, hkind, ↓reduceIte]
    generalize memberRuns _ _ _ _ = r at hmembers ⊢
    cases r <;> exact .other hkind hmembers

theorem nested_inside {openIndex closeIndex : Nat} (hnested : Nested tokens)
    (h : braces start tokens = .ok (openIndex, closeIndex)) :
    Nested ((tokens.take closeIndex).drop (openIndex + 1)) := by
  obtain ⟨t, rest, hdrop, ht, hclose⟩ := exists_of_braces h
  rw [Nested, ← List.take_append_drop openIndex tokens, hdrop, openBehindAll_append] at hnested
  obtain ⟨around, -, hbehind⟩ := Option.bind_eq_some_iff.mp hnested
  obtain ⟨next, hturn, hrest⟩ := openBehindAll_cons.mp hbehind
  obtain rfl : next = "\x7d" :: around := by
    cases hturn with
    | opens h => simpa [bracketPairs, ht] using h
    | closes h => simp [bracketPairs, ht] at h
    | passes h => simp [bracketPairs, ht] at h
  obtain ⟨k, rfl, hk⟩ : ∃ k, closeIndex = openIndex + 1 + k ∧ Nested (rest.take k) :=
    closing?_nested hrest hclose
  have hslice : (tokens.take (openIndex + 1 + k)).drop (openIndex + 1) = rest.take k := by
    rw [← List.take_drop, ← List.drop_drop, hdrop]
    rfl
  rwa [hslice]

section Braced

variable {openIndex closeIndex : Nat} {constants members : List Run}
  (hopen : HasText tokens openIndex ["\x7b"]) (hclose : HasText tokens closeIndex ["\x7d"])
  (hwhole : Nested (Text.slice tokens (openIndex + 1) closeIndex))

include hopen hclose hwhole

theorem splits_members (hruns : Runs tokens closeIndex (openIndex + 1) members)
    (hnested : ∀ run ∈ members, Nested (Text.slice tokens run.first (run.last + 1))) :
    Splits tokens kind ⟨openIndex, closeIndex, [], none, members⟩ where
  opening := hopen
  closing := hclose
  whole := hwhole
  inside := hruns.parts.inside
  inOrder := hruns.parts.inOrder
  terminator := nofun
  covered := fun _ hk hlt => (hruns.parts.covered hk hlt).imp id .inl
  nested := hnested
  ends := hruns.ends

theorem splits_constants (hparts : Parts tokens [","] closeIndex (openIndex + 1) constants)
    (hnested : ∀ run ∈ constants, Nested (Text.slice tokens run.first (run.last + 1))) :
    Splits tokens .enum ⟨openIndex, closeIndex, constants, none, []⟩ where
  opening := hopen
  closing := hclose
  whole := hwhole
  inside := fun run hrun => hparts.inside run (by simpa using hrun)
  inOrder := by simpa using hparts.inOrder
  terminator := nofun
  covered := fun k hk hlt => by
    refine (hparts.covered hk hlt).imp (by simp) fun hcomma => .inr ⟨⟨rfl, nofun, ?_⟩, hcomma⟩
    simp
  nested := by simpa using hnested
  ends := by simp

theorem splits_append {index : Nat} (hindex : openIndex < index) (hlt : index < closeIndex)
    (hfront : Parts tokens [","] index (openIndex + 1) constants)
    (hsemicolon : HasText tokens index [";"])
    (hback : Runs tokens closeIndex (index + 1) members)
    (hnested : ∀ run ∈ constants ++ members,
      Nested (Text.slice tokens run.first (run.last + 1))) :
    Splits tokens .enum ⟨openIndex, closeIndex, constants, some index, members⟩ := by
  have hbefore := hfront.inside
  have hbehind := hback.parts.inside
  exact {
    opening := hopen
    closing := hclose
    whole := hwhole
    inside := fun run hrun => by
      rcases List.mem_append.mp hrun with hrun | hrun
      · have := hbefore run hrun
        dsimp only
        omega
      · have := hbehind run hrun
        dsimp only
        omega
    inOrder := by
      refine List.pairwise_append.mpr ⟨hfront.inOrder, hback.parts.inOrder, ?_⟩
      intro run hrun run' hrun'
      have := hbefore run hrun
      have := hbehind run' hrun'
      omega
    terminator := by
      rintro _ ⟨⟩
      refine ⟨hsemicolon, fun run hrun => (hbefore run hrun).2.2, fun run hrun => ?_⟩
      have := hbehind run hrun
      omega
    covered := fun j hj hlt => by
      rcases Nat.lt_trichotomy j index with hless | rfl | hgreater
      · refine (hfront.covered hj hless).imp
          (fun ⟨run, hrun, hin⟩ => ⟨run, List.mem_append_left _ hrun, hin⟩)
          fun hcomma => .inr ⟨⟨rfl, fun _ h => Option.some.inj h ▸ hless, ?_⟩, hcomma⟩
        intro run hrun
        have := hbehind run hrun
        omega
      · exact .inr (.inl hsemicolon)
      · exact (hback.parts.covered hgreater hlt).imp
          (fun ⟨run, hrun, hin⟩ => ⟨run, List.mem_append_right _ hrun, hin⟩) .inl
    nested := hnested
    ends := hback.ends }

end Braced

theorem BodyScan.splits {body : Body} {openIndex closeIndex : Nat}
    (hscan : BodyScan tokens kind openIndex closeIndex r) (hr : r = .ok body)
    (hnested : Nested tokens) (hbraces : braces start tokens = .ok (openIndex, closeIndex)) :
    Splits tokens kind body := by
  obtain ⟨hopen, -, hclose⟩ := braces_eq_ok hbraces
  have hwhole := nested_inside hnested hbraces
  have hstop : closeIndex ≤ tokens.length := by
    obtain ⟨t, ht, -⟩ := hclose
    exact le_of_lt (List.getElem?_eq_some_iff.mp ht).1
  cases hscan with
  | @other r hkind hmembers =>
    cases r with
    | error => cases hr
    | ok members =>
      cases hr
      exact splits_members hopen hclose hwhole (hmembers.runs hstop rfl rfl)
        (hmembers.nested rfl hwhole rfl)
  | @enum constants index terminator r hkind hconstants hmembers =>
    cases r with
    | error => cases hr
    | ok members =>
      cases hr
      subst hkind
      obtain ⟨hparts, hnestedConstants, hnestedBehind⟩ := hconstants.parts hstop rfl hwhole
      have hruns := hmembers.runs hstop rfl rfl
      have hspec := hconstants.spec
      dsimp only [constantStop] at hparts hspec
      obtain ⟨rfl, hbehind⟩ | ⟨k, rfl, rfl, hk⟩ := hspec
      · -- the constants fill the body
        obtain rfl : members = [] := by
          cases hruns with
          | nil => rfl
          | cons hfirst _ hrun hlast =>
            rw [List.length_drop, List.length_take, Nat.min_eq_left hstop] at hbehind
            omega
        exact splits_constants hopen hclose hwhole hparts hnestedConstants
      · obtain ⟨hlt, hsemicolon⟩ := (hasText_inside rfl).mp hk
        rw [Option.getD_some] at hparts
        have hnestedMembers := hmembers.nested rfl hnestedBehind rfl
        exact splits_append hopen hclose hwhole (by omega) hlt hparts hsemicolon hruns fun run hrun =>
          (List.mem_append.mp hrun).elim (hnestedConstants run) (hnestedMembers run)

end Body

namespace Source

open Body

variable {source : Source} {head : TypeHead}

/-- What is found out about a type that has a position before its runs are paired with declarations:
its body, and the offsets where the body starts, where its members start, and where it ends. -/
def scanType (source : Source) (head : TypeHead) : Except Fault (Body × Nat × Nat × Nat) := do
  let start := source.tokens.findIdx (·.position == head.position)
  let (openIndex, closeIndex) ← (Body.braces start source.tokens).mapError .malformed
  let bodyStart := (← source.offsetAt openIndex) + 1
  let bodyEnd ← source.offsetAt closeIndex
  let body ← (Body.ofTokens head.kind openIndex closeIndex source.tokens).mapError .malformed
  let membersStart ← Convert.membersStartOf source bodyStart body
  return (body, bodyStart, membersStart, bodyEnd)

theorem layoutOf_eq (source : Source) (head : TypeHead) (constants declarations : List Declaration) :
    Convert.layoutOf source head constants declarations = do
      let (body, bodyStart, membersStart, bodyEnd) ← scanType source head
      let (front, back) ←
        Pair.ofBody source head.name Declaration.isBlock Declaration.ruleName body constants
          declarations
      return { bodyStart, membersStart, bodyEnd, constants := front, members := back } := by
  simp only [Convert.layoutOf, scanType, Convert.membersStartOf, bind_assoc, pure_bind]
  refine bind_congr fun indices => bind_congr fun offset => bind_congr fun bodyEnd =>
    bind_congr fun body => ?_
  cases body.terminator <;> cases body.constants.getLast? <;> rfl

def NoLine (source : Source) (fault : Fault) : Prop :=
  fault = .noSuchLine ∧ ∃ t ∈ source.tokens, source.offset t = .error .noSuchLine

theorem offset_failsBy {t : Token} (ht : t ∈ source.tokens) :
    FailsBy (NoLine source) (source.offset t) := by
  intro fault h
  have hfault : fault = .noSuchLine := by
    unfold Source.offset at h
    split at h
    · cases h
    · exact (Except.error.inj h).symm
  exact ⟨hfault, t, ht, hfault ▸ h⟩

theorem getD_mem {index : Nat} {texts : List String} (h : HasText source.tokens index texts) :
    source.tokens.getD index default ∈ source.tokens := by
  obtain ⟨t, ht, -⟩ := h
  rw [List.getD_eq_getElem?_getD, ht]
  exact List.mem_of_getElem? ht

theorem offsetAt_failsByLine {index : Nat} {texts : List String}
    (h : HasText source.tokens index texts) : FailsBy (NoLine source) (source.offsetAt index) :=
  offset_failsBy (getD_mem h)

theorem endAt_failsByLine {index : Nat} {texts : List String}
    (h : HasText source.tokens index texts) : FailsBy (NoLine source) (source.endAt index) :=
  .bind (offset_failsBy (getD_mem h)) fun _ _ => .ok _

theorem membersStartOf_failsBy {body : Body} (h : Splits source.tokens kind body)
    (bodyStart : Nat) : FailsBy (NoLine source) (Convert.membersStartOf source bodyStart body) := by
  unfold Convert.membersStartOf
  split
  · rename_i index _ hterminator
    exact endAt_failsByLine (h.terminator _ hterminator).1
  · rename_i run _ hlast
    have hrun := h.inside run (List.mem_append_left _ (List.mem_of_getLast? hlast))
    obtain ⟨t, ht, -⟩ := h.closing
    have hbound := (List.getElem?_eq_some_iff.mp ht).1
    have hlt : run.last < source.tokens.length := by omega
    have htext : HasText source.tokens run.last [source.tokens[run.last].text] :=
      ⟨_, List.getElem?_eq_getElem hlt, List.mem_singleton_self _⟩
    exact endAt_failsByLine htext
  · exact .ok _

theorem scanType_splits (source : Source) (head : TypeHead) (hnested : Nested source.tokens) :
    (∀ openIndex closeIndex,
      Body.braces (source.tokens.findIdx (·.position == head.position)) source.tokens =
        .ok (openIndex, closeIndex) →
      BodyScan source.tokens head.kind openIndex closeIndex
        (Body.ofTokens head.kind openIndex closeIndex source.tokens)) ∧
    (∀ body places, scanType source head = .ok (body, places) →
      Splits source.tokens head.kind body) ∧
    FailsBy (fun fault => (∃ reason, fault = .malformed reason) ∨ NoLine source fault)
      (scanType source head) := by
  have hsplits {start openIndex closeIndex : Nat} {body : Body}
      (hbraces : (braces start source.tokens).mapError Fault.malformed = .ok (openIndex, closeIndex))
      (hbody : (Body.ofTokens head.kind openIndex closeIndex source.tokens).mapError Fault.malformed =
        .ok body) : Splits source.tokens head.kind body :=
    (ofTokens_scan source.tokens head.kind openIndex closeIndex).splits (ok_of_mapError hbody)
      hnested (ok_of_mapError hbraces)
  refine ⟨fun openIndex closeIndex _ => ofTokens_scan .., fun body places h => ?_, ?_⟩
  · simp only [scanType, bind_eq_ok] at h
    obtain ⟨⟨openIndex, closeIndex⟩, hbraces, _, -, _, -, body, hbody, _, -, h⟩ := h
    cases h
    exact hsplits hbraces hbody
  · have hline {α : Type} {x : Except Fault α} (h : FailsBy (NoLine source) x) :
        FailsBy (fun fault => (∃ reason, fault = .malformed reason) ∨ NoLine source fault) x :=
      fun fault hfault => .inr (h fault hfault)
    refine .bind (.mapError fun reason => .inl ⟨reason, rfl⟩) fun ⟨openIndex, closeIndex⟩ hbraces => ?_
    obtain ⟨hopen, -, hclose⟩ := braces_eq_ok (ok_of_mapError hbraces)
    refine .bind (hline (offsetAt_failsByLine hopen)) fun bodyStart _ => ?_
    refine .bind (hline (offsetAt_failsByLine hclose)) fun bodyEnd _ => ?_
    refine .bind (.mapError fun reason => .inl ⟨reason, rfl⟩) fun body hbody => ?_
    exact .bind (hline (membersStartOf_failsBy (hsplits hbraces hbody) _)) fun _ _ => .ok _

def mixedEnum : List Char :=
  "enum E\x7bA(f(1)),B\x7bvoid g(){}\x7d,;;int[] x=\x7b1,2\x7d;;void h(){};static{}\x7d".toList

theorem scanType_splits_mixedEnum :
    ∃ tokens head body places, Token.ofSource mixedEnum = .ok tokens ∧ Nested tokens ∧
      scanType (.ofTokens mixedEnum tokens) head = .ok (body, places) ∧
      body.constants = [⟨3, 9⟩, ⟨11, 19⟩] ∧ body.terminator = some 21 ∧
      body.members = [⟨23, 34⟩, ⟨35, 41⟩, ⟨42, 44⟩] ∧ Splits tokens head.kind body := by
  let head : TypeHead := { kind := .enum, name := "E", position := ⟨1, 1⟩ }
  have h : ((Token.ofSource mixedEnum).toOption.any fun tokens => decide (Nested tokens) &&
      (scanType (.ofTokens mixedEnum tokens) head).toOption.any fun found =>
        decide (found.1.constants = [⟨3, 9⟩, ⟨11, 19⟩] ∧ found.1.terminator = some 21 ∧
          found.1.members = [⟨23, 34⟩, ⟨35, 41⟩, ⟨42, 44⟩])) = true := by
    decide +kernel
  simp only [Option.any_eq_true, Bool.and_eq_true, decide_eq_true_eq] at h
  obtain ⟨tokens, htokens, hnested, ⟨body, places⟩, hscan, hconstants, hterminator, hmembers⟩ := h
  obtain ⟨-, hsplits, -⟩ := scanType_splits (.ofTokens mixedEnum tokens) head hnested
  have hscan := toOption_eq_some hscan
  exact ⟨tokens, head, body, places, toOption_eq_some htokens, hnested, hscan, hconstants,
    hterminator, hmembers, hsplits body places hscan⟩

/-- A class with an escape that stands for a line break. -/
def escapedBreak : List Char :=
  "class A\x7b\\u000a\x7d".toList

/-- Behind such an escape there are lines that the text does not have. -/
theorem scanType_missing_line :
    ∃ tokens unit, Token.ofSource escapedBreak = .ok tokens ∧
      CompilationUnit.ofTokens tokens = .ok unit ∧ Nested tokens ∧
      ∃ t ∈ unit.types,
        scanType (.ofTokens escapedBreak tokens) t.head = .error .noSuchLine := by
  have h : ((Token.ofSource escapedBreak).toOption.any fun tokens =>
      (CompilationUnit.ofTokens tokens).toOption.any fun unit => decide (Nested tokens) &&
        unit.types.any fun t =>
          match scanType (.ofTokens escapedBreak tokens) t.head with
          | .error .noSuchLine => true
          | _ => false) = true := by
    decide +kernel
  simp only [Option.any_eq_true, Bool.and_eq_true, decide_eq_true_eq, List.any_eq_true] at h
  obtain ⟨tokens, htokens, unit, hunit, hnested, t, ht, hscan⟩ := h
  refine ⟨tokens, unit, toOption_eq_some htokens, toOption_eq_some hunit, hnested, t, ht, ?_⟩
  split at hscan
  · assumption
  · cases hscan

end Source

end CallerFirst.Java
