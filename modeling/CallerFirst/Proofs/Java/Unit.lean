import CallerFirst.Java.Unit
import CallerFirst.Proofs.Java.Convert
import CallerFirst.Proofs.Except
import CallerFirst.Proofs.Java.Parser
import CallerFirst.Sorter

/-!
# The type of a unit whose members are ordered

`readUnit_ok`: a unit that is read has as its first type one at its own level, whose members stand in
the order of the source, each with its span and its number.
-/

namespace CallerFirst.Java

-- ---------------------------------------------------------------------------
-- Pairs
-- ---------------------------------------------------------------------------

namespace Pair

variable {s : Source} {type : String} {pairs : List (Pair Declaration)}

def Spans (s : Source) (run : Run) (pair : Pair Declaration) : Prop :=
  ∃ span, s.span run = .ok span ∧ pair.span = some span

structure Lines (s : Source) (declarations : List Declaration) (runs : List Run)
    (pairs : List (Pair Declaration)) : Prop where
  declarations : pairs.filterMap (·.declaration) = declarations
  spans : List.Forall₂ (Spans s) runs pairs

theorem constants_ok (h : constants s declarations runs = .ok pairs)
    (hlen : runs.length = declarations.length) : Lines s declarations runs pairs := by
  induction declarations generalizing runs pairs with
  | nil =>
    obtain rfl : runs = [] := List.length_eq_zero_iff.mp hlen
    cases h
    exact ⟨rfl, .nil⟩
  | cons d declarations ih =>
    cases runs with
    | nil => cases hlen
    | cons run runs =>
      simp only [constants, bind_eq_ok] at h
      obtain ⟨span, hspan, rest, hrest, h⟩ := h
      cases h
      obtain ⟨hd, hs⟩ := ih hrest (Nat.succ.inj hlen)
      exact ⟨by simp [hd], .cons ⟨span, hspan, rfl⟩ hs⟩

theorem exists_of_mem_constants (h : constants s declarations runs = .ok pairs)
    (hp : pair ∈ pairs) : ∃ d ∈ declarations, pair.declaration = some d := by
  induction declarations generalizing runs pairs with
  | nil =>
    cases runs <;> cases h <;> cases hp
  | cons d declarations ih =>
    cases runs with
    | nil => cases h; cases hp
    | cons run runs =>
      simp only [constants, bind_eq_ok] at h
      obtain ⟨span, -, rest, hrest, h⟩ := h
      cases h
      rcases List.mem_cons.mp hp with rfl | hp
      · exact ⟨d, List.mem_cons_self, rfl⟩
      · obtain ⟨e, he, hpair⟩ := ih hrest hp
        exact ⟨e, .tail _ he, hpair⟩

theorem members_ok (h : members s type Declaration.isBlock Declaration.ruleName declarations runs =
    .ok pairs) : Lines s declarations runs pairs := by
  induction runs generalizing declarations pairs with
  | nil =>
    cases declarations with
    | nil =>
      cases h
      exact ⟨rfl, .nil⟩
    | cons => cases h
  | cons run runs ih =>
    unfold members at h
    simp only at h
    split at h
    · simp only [bind_eq_ok] at h
      obtain ⟨span, hspan, rest, hrest, h⟩ := h
      cases h
      obtain ⟨hd, hs⟩ := ih hrest
      exact ⟨by simpa using hd, .cons ⟨span, hspan, rfl⟩ hs⟩
    · cases declarations with
      | nil => cases h
      | cons d declarations =>
        simp only at h
        split at h
        · cases h
        · simp only [bind_eq_ok] at h
          obtain ⟨span, hspan, rest, hrest, h⟩ := h
          cases h
          obtain ⟨hd, hs⟩ := ih hrest
          exact ⟨by simp [hd], .cons ⟨span, hspan, rfl⟩ hs⟩

theorem ofBody_ok {body : Body} (h : ofBody s type Declaration.isBlock Declaration.ruleName body
    constantDeclarations declarations = .ok (front, back)) :
    Lines s constantDeclarations body.constants front ∧ Lines s declarations body.members back ∧
      ∀ pair ∈ front, ∃ d ∈ constantDeclarations, pair.declaration = some d := by
  unfold ofBody at h
  split at h
  · cases h
  · rename_i hlen
    simp only [bind_eq_ok] at h
    obtain ⟨front, hfront, back, hback, h⟩ := h
    cases h
    exact ⟨constants_ok hfront (by simpa using hlen), members_ok hback,
      fun _ hp => exists_of_mem_constants hfront hp⟩

end Pair

-- ---------------------------------------------------------------------------
-- Bodies
-- ---------------------------------------------------------------------------

namespace Convert

variable {source : Source} {head : TypeHead} {layout : Layout}

/-- Where members may stand: behind the constants of an enum and the semicolon that ends them. -/
def membersStartOf (source : Source) (bodyStart : Nat) (body : Body) : Except Fault Nat :=
  match body.terminator, body.constants.getLast? with
  | some index, _ => source.endAt index
  | none, some run => source.endAt run.last
  | none, none => .ok bodyStart

structure LaidOut (source : Source) (head : TypeHead) (constants declarations : List Declaration)
    (layout : Layout) (body : Body) : Prop where
  braces : Body.braces (source.tokens.findIdx (·.position == head.position)) source.tokens =
    .ok (body.openIndex, body.closeIndex)
  ofTokens : Body.ofTokens head.kind body.openIndex body.closeIndex source.tokens = .ok body
  bodyStart : ∃ offset, source.offsetAt body.openIndex = .ok offset ∧ layout.bodyStart = offset + 1
  membersStart : membersStartOf source layout.bodyStart body = .ok layout.membersStart
  bodyEnd : source.offsetAt body.closeIndex = .ok layout.bodyEnd
  constantLines : Pair.Lines source constants body.constants layout.constants
  memberLines : Pair.Lines source declarations body.members layout.members
  declared : ∀ pair ∈ layout.constants, ∃ d ∈ constants, pair.declaration = some d

theorem ofTokens_indices (h : Body.ofTokens kind openIndex closeIndex tokens = .ok body) :
    body.openIndex = openIndex ∧ body.closeIndex = closeIndex := by
  simp only [Body.ofTokens, bind_eq_ok] at h
  obtain ⟨members, -, h⟩ := h
  cases h
  exact ⟨rfl, rfl⟩

theorem layoutOf_ok (h : layoutOf source head constants declarations = .ok layout) :
    ∃ body, LaidOut source head constants declarations layout body := by
  unfold layoutOf at h
  simp only [bind_eq_ok] at h
  obtain ⟨⟨openIndex, closeIndex⟩, hbraces, offset, hoffset, bodyEnd, hbodyEnd, body, hbody, h⟩ := h
  have hbody := ok_of_mapError hbody
  obtain ⟨rfl, rfl⟩ := ofTokens_indices hbody
  -- the three cases go on in the same way
  have hrest : (membersStartOf source (offset + 1) body >>= fun membersStart => do
      let pairs ←
        Pair.ofBody source head.name Declaration.isBlock Declaration.ruleName body constants
          declarations
      return ({ bodyStart := offset + 1, membersStart, bodyEnd, constants := pairs.1,
                members := pairs.2 } : Layout)) = .ok layout := by
    unfold membersStartOf
    split at h
    · simp_all only
    · simp_all only
    · simp_all only
      exact h
  simp only [bind_eq_ok] at hrest
  obtain ⟨membersStart, hstart, pairs, hpairs, hlayout⟩ := hrest
  cases hlayout
  obtain ⟨hconstants, hmembers, hdeclared⟩ := Pair.ofBody_ok hpairs
  exact ⟨body, ok_of_mapError hbraces, hbody, ⟨offset, hoffset, rfl⟩, hstart, hbodyEnd,
    hconstants, hmembers, hdeclared⟩

theorem typeNode_gives {s : Scopes} (index : Nat) (span : Option (Nat × Nat))
    (binding : TypeBinding) :
    Gives (typeNode source s index span binding (.mk head annotations constants declarations))
      fun n => ∃ layout body nodes,
        n = .type (placeOf index ⟨none, span, false⟩) (typeHeader head binding layout) nodes ∧
          LaidOut source head constants declarations layout body ∧
          nodes.map outline = (layout.constants ++ layout.members).mapIdx outlineAt := by
  rw [typeNode]
  refine .bind (.lift _) fun layout hlayout => ?_
  obtain ⟨body, hbody⟩ := layoutOf_ok hlayout
  refine .bind (membersFrom_gives 0 _ hbody.constantLines.declarations) fun front hfront => ?_
  refine .bind (membersFrom_gives _ _ hbody.memberLines.declarations) fun back hback => .pure ?_
  refine ⟨layout, body, front ++ back, rfl, hbody, ?_⟩
  rw [List.map_append, hfront, hback, List.mapIdx_append]
  simp [Nat.add_comm]

end Convert

-- ---------------------------------------------------------------------------
-- Units
-- ---------------------------------------------------------------------------

/-- The type of a unit that counts, as it was read from a text. -/
structure ReadType (text : String) where
  tokens : List Token
  package : String
  head : TypeHead
  annotations : List Code
  constants : List Declaration
  declarations : List Declaration
  layout : Convert.Layout
  body : Body
  members : List Node
  scanned : Token.ofSource text.toList = .ok tokens
  unmixed : (TypeDeclaration.mk head annotations constants declarations).Unmixed
  laidOut : Convert.LaidOut (.ofTokens text.toList tokens) head constants declarations layout body
  outline_eq : members.map Convert.outline =
    (layout.constants ++ layout.members).mapIdx Convert.outlineAt

namespace ReadType

def header (r : ReadType text) : TypeHeader :=
  Convert.typeHeader r.head (topLevelBinding r.package r.head.name) r.layout

def unit (r : ReadType text) (others : List Node) : Node :=
  .unit text r.package (.type { index := 0 } r.header r.members :: others)

end ReadType

theorem readUnit_ok (h : readUnit text = .ok unit) :
    (∃ package, unit = .unit text package []) ∨
      ∃ (r : ReadType text) (others : List Node), unit = r.unit others := by
  simp only [readUnit, bind_eq_ok] at h
  obtain ⟨tokens, htokens, parsed, hparsed, types, htypes, h⟩ := h
  cases h
  have hunmixed := CompilationUnit.ofTokens_unmixed (ok_of_mapError hparsed)
  unfold typeNodes at htypes
  split at htypes
  · cases htypes
    exact .inl ⟨_, rfl⟩
  · rename_i first rest hfirst
    simp only [bind_eq_ok] at htypes
    obtain ⟨⟨node, progress⟩, hnode, htypes⟩ := htypes
    cases htypes
    obtain ⟨head, annotations, constants, declarations⟩ := first
    obtain ⟨layout, body, members, rfl, hbody, houtline⟩ :=
      Convert.typeNode_gives 0 none _ _ _ _ hnode
    exact .inr ⟨⟨tokens, parsed.package, head, annotations, constants, declarations, layout, body,
      members, ok_of_mapError htokens, hunmixed _ (hfirst ▸ List.mem_cons_self), hbody, houtline⟩,
      _, rfl⟩

/-- The members of the type that counts are those of a reading. -/
theorem exists_reading (hread : readUnit text = .ok unit)
    (htop : unit.topLevelType = .ok (some top)) (hmembers : top.members = .ok body) :
    ∃ (r : ReadType text) (others : List Node), unit = r.unit others ∧ body = r.members := by
  rcases readUnit_ok hread with ⟨package, rfl⟩ | ⟨r, others, rfl⟩
  · cases htop
  · cases htop
    cases hmembers
    exact ⟨r, others, rfl, rfl⟩

def readBody? (text : String) : Option (Node × List Node) := do
  let unit ← (readUnit text).toOption
  let top ← unit.topLevelType.toOption.join
  let body ← top.members.toOption
  return (unit, body)

/-- What can be decided of the unit of a text. -/
theorem exists_of_readBody? (text : String) (P : Node → List Node → Prop) [∀ unit body, Decidable (P unit body)]
    (h : (readBody? text).any (fun found => P found.1 found.2) = true) :
    ∃ unit top body, readUnit text = .ok unit ∧ unit.topLevelType = .ok (some top) ∧
      top.members = .ok body ∧ P unit body := by
  obtain ⟨found, hfound, hP⟩ := Option.any_eq_true _ _ |>.mp h
  simp only [readBody?, Option.bind_eq_bind, Option.bind_eq_some_iff, Option.pure_def,
    Option.some_inj] at hfound
  obtain ⟨unit, hunit, top, htop, body, hbody, rfl⟩ := hfound
  refine ⟨unit, top, body, toOption_eq_some hunit, toOption_eq_some ?_, toOption_eq_some hbody,
    of_decide_eq_true hP⟩
  exact Option.join_eq_some_iff.mp htop

-- ---------------------------------------------------------------------------
-- Categories of the members
-- ---------------------------------------------------------------------------

namespace ReadType

variable {text : String} {r : ReadType text} {m n : Node}

theorem topLevelType_unit (r : ReadType text) (others : List Node) :
    (r.unit others).topLevelType = .ok (some (.type { index := 0 } r.header r.members)) := rfl

theorem exists_outline {i : Nat} (h : r.members[i]? = some m) :
    ∃ pair, (r.layout.constants ++ r.layout.members)[i]? = some pair ∧
      m.place = Convert.placeOf i pair ∧ m.category? = some pair.category := by
  have hi := congrArg (·[i]?) r.outline_eq
  simp only [List.getElem?_map, h, List.getElem?_mapIdx, Option.map_some] at hi
  obtain ⟨pair, hpair, heq⟩ := Option.map_eq_some_iff.mp hi.symm
  exact ⟨pair, hpair, (congrArg Prod.fst heq).symm, (congrArg Prod.snd heq).symm⟩

theorem exists_pair (hm : m ∈ r.members) :
    ∃ pair ∈ r.layout.constants ++ r.layout.members, m.category? = some pair.category := by
  obtain ⟨i, hi⟩ := List.mem_iff_getElem?.mp hm
  obtain ⟨pair, hpair, -, hcategory⟩ := exists_outline hi
  exact ⟨pair, List.mem_of_getElem? hpair, hcategory⟩

theorem isMember (hm : m ∈ r.members) : m.isMember = true := by
  obtain ⟨pair, -, hpair⟩ := exists_pair hm
  simp [Node.isMember, hpair]

theorem exists_declaration {pair : Pair Declaration}
    (hpair : pair ∈ r.layout.constants ++ r.layout.members) :
    pair.declaration = none ∨ ∃ d ∈ r.constants ++ r.declarations, pair.declaration = some d := by
  cases hd : pair.declaration with
  | none => exact .inl rfl
  | some d =>
    refine .inr ⟨d, ?_, rfl⟩
    rw [← r.laidOut.constantLines.declarations, ← r.laidOut.memberLines.declarations,
      ← List.filterMap_append]
    exact List.mem_filterMap.mpr ⟨pair, hpair, hd⟩

theorem exists_declaration_of_category (hm : m ∈ r.members) (hc : m.category? = some category)
    (hblock : category = .methods ∨ category = .annotationMembers) :
    ∃ d ∈ r.declarations, ∃ isStatic, d.category isStatic = category := by
  obtain ⟨pair, hpair, hcategory⟩ := exists_pair hm
  obtain rfl : pair.category = category := Option.some.inj (hcategory.symm.trans hc)
  unfold Pair.category at hblock ⊢
  rcases exists_declaration hpair with hd | ⟨d, hmem, hd⟩
  · cases hstatic : pair.isStatic <;> simp [hd, hstatic, Declaration.category] at hblock
  · simp only [hd, Option.getD_some] at hblock ⊢
    rcases List.mem_append.mp hmem with hmem | hmem
    · have := r.unmixed.1 d hmem
      cases d with
      | enumConstant => simp [Declaration.category] at hblock
      | _ => cases this
    · exact ⟨d, hmem, pair.isStatic, rfl⟩

theorem unmixed_members (hm : m ∈ r.members) (hn : n ∈ r.members)
    (hcm : m.category? = some .annotationMembers) : n.category? ≠ some .methods := by
  intro hcn
  obtain ⟨d, hd, dstatic, hdc⟩ := exists_declaration_of_category hm hcm (.inr rfl)
  obtain ⟨e, he, estatic, hec⟩ := exists_declaration_of_category hn hcn (.inl rfl)
  rcases r.unmixed.2 with h | h
  · have := h d hd
    cases d with
    | annotationMember => cases this
    | method header =>
      cases hc : header.isConstructor <;> simp [Declaration.category, hc] at hdc
    | block => cases dstatic <;> cases hdc
    | _ => cases hdc
  · have := h e he
    cases e with
    | method => cases this
    | block => cases estatic <;> cases hec
    | _ => cases hec

theorem index_eq {i : Nat} (h : r.members[i]? = some m) : m.place.index = i := by
  obtain ⟨pair, -, hplace, -⟩ := exists_outline h
  rw [hplace, Convert.placeOf]
  split <;> rfl

theorem category_eq_enumConstants_iff {i : Nat} (h : r.members[i]? = some m) :
    m.category? = some .enumConstants ↔ i < r.layout.constants.length := by
  obtain ⟨pair, hpair, -, hcategory⟩ := exists_outline h
  rw [hcategory, Option.some_inj]
  unfold Pair.category
  by_cases hi : i < r.layout.constants.length
  · rw [List.getElem?_append_left hi] at hpair
    obtain ⟨d, hd, heq⟩ := r.laidOut.declared pair (List.mem_of_getElem? hpair)
    have := r.unmixed.1 d hd
    cases d with
    | enumConstant => simp [heq, hi, Declaration.category]
    | _ => cases this
  · rw [List.getElem?_append_right (by omega)] at hpair
    have hmem := List.mem_of_getElem? hpair
    simp only [hi, iff_false]
    cases hd : pair.declaration with
    | none => cases hstatic : pair.isStatic <;> simp [Declaration.category]
    | some d =>
      have hd : d ∈ r.declarations := by
        rw [← r.laidOut.memberLines.declarations]
        exact List.mem_filterMap.mpr ⟨pair, hmem, hd⟩
      have hfits : d.isEnumConstant = false := by
        rcases r.unmixed.2 with h | h
        · have := h d hd
          cases d <;> first | rfl | cases this
        · have := h d hd
          cases d <;> first | rfl | cases this
      cases d with
      | enumConstant => cases hfits
      | method header => cases hc : header.isConstructor <;> simp [Declaration.category, hc]
      | block => cases hstatic : pair.isStatic <;> simp [Declaration.category]
      | _ => simp [Declaration.category]

end ReadType

end CallerFirst.Java
