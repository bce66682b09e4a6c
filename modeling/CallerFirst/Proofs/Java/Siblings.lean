import CallerFirst.Proofs.Java.Lockstep

/-!
# The order of the members of a body

Every member of a body is converted with the same types in scope, so moving members about does not
change what their calls are bound to, as long as methods of one name and fields keep their order. A
nested type also sees variables, those in force behind the member in front of it
(`Layout.variablesAt`): it is bound alike where these agree on the names that it mentions.
-/

namespace CallerFirst.Java

-- ---------------------------------------------------------------------------
-- Variables in force
-- ---------------------------------------------------------------------------

def variablesBehind (outer : Variables) : Variables → List (Option Declaration) → Variables
  | current, [] => current
  | current, some d :: rest => variablesBehind outer (d.leaves outer current) rest
  | _, none :: rest => variablesBehind outer outer rest

theorem variablesBehind_append (outer current : Variables) (xs ys : List (Option Declaration)) :
    variablesBehind outer current (xs ++ ys) =
      variablesBehind outer (variablesBehind outer current xs) ys := by
  induction xs generalizing current with
  | nil => rfl
  | cons x xs ih => cases x <;> exact ih _

theorem variablesBehind_blocks {blocks : List (Pair Declaration)}
    (h : ∀ block ∈ blocks, block.declaration = none) (outer current : Variables) :
    variablesBehind outer current (blocks.map (·.declaration)) =
      if blocks.isEmpty then current else outer := by
  induction blocks generalizing current with
  | nil => rfl
  | cons block blocks ih =>
    obtain ⟨hblock, hblocks⟩ := List.forall_mem_cons.mp h
    rw [List.map_cons, hblock, variablesBehind, ih hblocks]
    simp

namespace Convert

namespace Layout

def pairs (layout : Layout) : List (Pair Declaration) :=
  layout.constants ++ layout.members

/-- Variables in force in front of the member at a place. Constants and members both start from those
around the body. -/
def variablesAt (layout : Layout) (outer : Variables) (i : Nat) : Variables :=
  let before :=
    if i < layout.constants.length then layout.constants.take i
    else layout.members.take (i - layout.constants.length)
  variablesBehind outer outer (before.map (·.declaration))

end Layout

-- ---------------------------------------------------------------------------
-- What a conversion leaves alone
-- ---------------------------------------------------------------------------

variable {source : Source} {s : Scopes}

theorem sameBlocks_id (source : Source) (t : TypeDeclaration) : SameBlocks source source id t := by
  obtain ⟨head, annotations, constants, ds⟩ := t
  intro layout₁ layout₂ h₁ h₂
  rw [relocateMembers_id, relocateMembers_id] at h₂
  rw [Except.ok.inj (h₁.symm.trans h₂)]

def allDeclared (source : Source) : TypeDeclaration → Bool
  | .mk head _ constants ds =>
    (layoutOf source head constants ds).toOption.all (·.members.all (·.declaration.isSome))

theorem map_declaration_members (h : allDeclared source (.mk head annotations constants ds) = true)
    (hlayout : layoutOf source head constants ds = .ok layout) :
    layout.members.map (·.declaration) = ds.map some := by
  obtain ⟨body, hlaid⟩ := layoutOf_ok hlayout
  rw [allDeclared, hlayout] at h
  have hmembers := Comparison.map_declaration_eq (List.all_eq_true.mp h)
  rwa [hlaid.memberLines.declarations] at hmembers

theorem sameBlocks_of_allDeclared {source₁ source₂ : Source} {t : TypeDeclaration}
    (h₁ : allDeclared source₁ t = true) (h₂ : allDeclared source₂ (t.relocate f) = true) :
    SameBlocks source₁ source₂ f t := by
  obtain ⟨head, annotations, constants, ds⟩ := t
  intro layout₁ layout₂ hlayout₁ hlayout₂
  rw [TypeDeclaration.relocate] at h₂
  have hmembers₁ := congrArg (List.map Option.isNone) (map_declaration_members h₁ hlayout₁)
  have hmembers₂ := congrArg (List.map Option.isNone) (map_declaration_members h₂ hlayout₂)
  simp only [relocateMembers_eq, List.map_map, Function.comp_def, Option.isNone_some]
    at hmembers₁ hmembers₂
  rw [hmembers₁, hmembers₂]

theorem exists_layout (h : (typeNode source s index span binding (.mk head annotations constants
    ds)).run p = .ok (n, q)) : ∃ layout, layoutOf source head constants ds = .ok layout := by
  rw [typeNode, StateT.run_bind, bind_eq_ok] at h
  obtain ⟨⟨layout, p'⟩, hlayout, -⟩ := h
  exact ⟨layout, Gives.lift _ _ _ _ hlayout⟩

def itself (source : Source) (mentions : List Mention) (start : Progress) : Comparison where
  source₁ := source
  source₂ := source
  f := id
  mentions
  start₁ := start
  start₂ := start
  injective _ _ _ _ h := h
  blocks t _ := sameBlocks_id source t

end Convert

namespace Comparison

variable {r : Comparison}

theorem SameScope.refl (scope : Scope) : r.SameScope scope scope :=
  ⟨.refl _, fun _ => rfl, rfl⟩

theorem SameScopes.refl (s : Scopes) : r.SameScopes s s :=
  ⟨List.forall₂_same.mpr fun scope _ => .refl scope, fun _ _ => rfl⟩

theorem inStep_start (h₁ : ∀ site, .call site ∈ r.mentions → r.start₁.resolved.lookup site = none)
    (h₂ : ∀ site, .call site ∈ r.mentions → r.start₂.resolved.lookup (r.f site) = none) :
    r.InStep r.start₁ r.start₂ := by
  refine ⟨⟨fun site hsite => ?_, fun _ _ => rfl⟩, 0, rfl, rfl⟩
  rw [h₁ site hsite, h₂ site hsite]
  exact .none

end Comparison

namespace Convert

variable {source : Source} {s : Scopes}

theorem inStep_itself (source : Source) (mentions : List Mention) (p : Progress) :
    (itself source mentions p).InStep p p := by
  refine ⟨⟨fun site _ => ?_, fun _ _ => rfl⟩, 0, rfl, rfl⟩
  show Option.Rel _ (p.resolved.lookup site) (p.resolved.lookup site)
  rcases p.resolved.lookup site with _ | _ | found
  · exact .none
  · exact .some .none
  · exact .some (.some ⟨.refl _, rfl⟩)

theorem lookup_eq_of_lockstep {x : Convert α} (h : (itself source mentions p).Lockstep x x P)
    (hrun : x.run p = .ok (a, q)) (hsite : .call site ∉ mentions) :
    q.resolved.lookup site = p.resolved.lookup site :=
  (h p p a a q q (inStep_itself source mentions p) hrun hrun).2.known.others site hsite

theorem member_lookup (h : (member source s outer index pair current d).run p = .ok (found, q))
    (hsite : .call site ∉ d.mentions) : q.resolved.lookup site = p.resolved.lookup site := by
  let r := itself source d.mentions p
  have hself (v : Variables) : r.SameVariables v v := fun _ _ => rfl
  have hstep := Comparison.member_lockstep (.refl s) (hself outer) index index pair pair d
    (fun _ _ => hself current) (List.Subset.refl _)
  rw [show r.f = id from rfl, Declaration.relocate_id] at hstep
  exact lookup_eq_of_lockstep hstep h hsite

theorem membersFrom_lookup
    (h : (membersFrom source s outer index pairs current ds).run p = .ok (nodes, q))
    (hsite : .call site ∉ mentionsOfMembers ds) :
    q.resolved.lookup site = p.resolved.lookup site := by
  let r := itself source (mentionsOfMembers ds) p
  have hself (v : Variables) : r.SameVariables v v := fun _ _ => rfl
  have hpairs : pairs.map (·.declaration.isNone) = pairs.map (·.declaration.isNone) := rfl
  have hstep := Comparison.membersFrom_lockstep (.refl s) (hself outer) (hself current) index index
    hpairs ds (List.Subset.refl _)
  rw [show r.f = id from rfl, relocateMembers_id] at hstep
  exact lookup_eq_of_lockstep hstep h hsite

-- ---------------------------------------------------------------------------
-- One member of a body
-- ---------------------------------------------------------------------------

def declaredBefore (pairs : List (Pair Declaration)) (i : Nat) : List Declaration :=
  (pairs.take i).filterMap (·.declaration)

/-- How the node of a declaration comes about: with the variables in force, and with what is known of
all calls but those of the declarations in front. -/
structure Converts (source : Source) (s : Scopes) (outer current : Variables) (known : Resolved)
    (before : List Declaration) (d : Declaration) (node : Node) : Prop where
  run : ∃ index pair p found q,
    (member source s outer index pair current d).run p = .ok (found, q) ∧ found.1 = node ∧
      ∀ site, (∀ e ∈ before, .call site ∉ e.mentions) →
        p.resolved.lookup site = known.lookup site

theorem exists_converts {pairs : List (Pair Declaration)}
    (hpairs : pairs.filterMap (·.declaration) = ds)
    (hrun : (membersFrom source s outer index pairs current ds).run p = .ok (nodes, q))
    (hi : pairs[i]? = some pair) (hd : pair.declaration = some d) :
    ∃ node, nodes[i]? = some node ∧
      Converts source s outer (variablesBehind outer current ((pairs.take i).map (·.declaration)))
        p.resolved (declaredBefore pairs i) d node := by
  induction ds generalizing pairs index current p nodes i with
  | nil =>
    have hnone := List.filterMap_eq_nil_iff.mp hpairs pair (List.mem_of_getElem? hi)
    simp [hd] at hnone
  | cons e ds ih =>
    obtain ⟨blocks, first, rest, rfl, hsplit, hblocks, hfirst, hrest⟩ := splitBlocks_eq hpairs
    rw [membersFrom, hsplit] at hrun
    simp only [StateT.run_bind, bind_eq_ok] at hrun
    obtain ⟨⟨found, next⟩, hmember, ⟨more, last⟩, hmore, hrun⟩ := hrun
    cases hrun
    have hfront := variablesBehind_blocks hblocks outer current
    have hlen : (blocks.mapIdx fun i pair => emptyBlock (index + i) pair).length = blocks.length :=
      List.length_mapIdx
    rcases lt_trichotomy i blocks.length with hlt | rfl | hgt
    · rw [List.getElem?_append_left hlt] at hi
      simp [hblocks pair (List.mem_of_getElem? hi)] at hd
    · obtain rfl : first = pair := by simpa using hi
      obtain rfl : e = d := Option.some.inj (hfirst.symm.trans hd)
      refine ⟨found.1, by rw [← hlen]; simp, index + blocks.length, first, p, found, next, ?_, rfl,
        fun _ _ => rfl⟩
      rw [List.take_left, hfront]
      exact hmember
    · obtain ⟨j, rfl⟩ := Nat.exists_eq_add_of_lt hgt
      have hbefore : (blocks ++ first :: rest).take (blocks.length + j + 1) =
          blocks ++ first :: rest.take j := by
        rw [Nat.add_assoc, List.take_length_add_append, List.take_succ_cons]
      have hi : rest[j]? = some pair := by
        simpa [List.getElem?_append_right (Nat.le_add_right _ _), Nat.add_assoc] using hi
      obtain ⟨node, hnode, index', pair', p', found', q', hrun', hfound', hlookup⟩ :=
        ih hrest hmore hi
      refine ⟨node, ?_, index', pair', p', found', q', ?_, hfound', fun site hsite => ?_⟩
      · simpa [List.getElem?_append_right, Nat.add_assoc] using hnode
      · rw [hbefore, List.map_append, List.map_cons, variablesBehind_append, hfront, hfirst,
          variablesBehind, ← (member_becomes _ _ e _ _ _ hmember).leaves]
        exact hrun'
      · have hsite : .call site ∉ e.mentions ∧
            ∀ d ∈ declaredBefore rest j, .call site ∉ d.mentions := by
          rw [declaredBefore, hbefore, List.filterMap_append, List.filterMap_cons_some hfirst]
            at hsite
          exact List.forall_mem_cons.mp fun d hd => hsite d (List.mem_append_right _ hd)
        rw [hlookup site hsite.2, member_lookup hmember hsite.1]

-- ---------------------------------------------------------------------------
-- Bodies
-- ---------------------------------------------------------------------------

/-- A body that was converted, of a type or of an anonymous class, with its nodes. -/
inductive Converted (source : Source) (s : Scopes) (start : Progress) (binding : TypeBinding) :
    List Declaration → List Declaration → Layout → List Node → Prop
  | type {head annotations constants ds index span layout place header nodes q}
      (hlayout : layoutOf source head constants ds = .ok layout)
      (hrun : (typeNode source s index span binding (.mk head annotations constants ds)).run start =
        .ok (.type place header nodes, q)) :
      Converted source s start binding constants ds layout nodes
  | anonymous {ds nodes q}
      (hrun : (anonymousClass source s (some ds)).run start =
        .ok ([.anonymousClass (some binding) nodes], q)) :
      Converted source s start binding [] ds
        { constants := [], members := Pair.unplaced ds } nodes

structure BodyRun (source : Source) (s : Scopes) (known : Resolved) (binding : TypeBinding)
    (constants ds : List Declaration) (layout : Layout) (nodes : List Node) : Prop where
  declaredConstants : layout.constants.filterMap (·.declaration) = constants
  declaredMembers : layout.members.filterMap (·.declaration) = ds
  run : ∃ p p' q front back, p.resolved = known ∧
    (membersFrom source { s with types := scopeOf binding ds :: s.types } s.locals 0
      layout.constants s.locals constants).run p = .ok (front, p') ∧
    (membersFrom source { s with types := scopeOf binding ds :: s.types } s.locals
      layout.constants.length layout.members s.locals ds).run p' = .ok (back, q) ∧
    nodes = front ++ back

variable {start : Progress} {binding : TypeBinding} {constants ds : List Declaration}
  {layout : Layout} {nodes : List Node}

theorem Converted.bodyRun (h : Converted source s start binding constants ds layout nodes) :
    BodyRun source s start.resolved binding constants ds layout nodes := by
  cases h with
  | type hlayout hrun =>
    obtain ⟨body, hlaid⟩ := layoutOf_ok hlayout
    rw [typeNode, hlayout] at hrun
    simp only [StateT.run_bind, bind_eq_ok] at hrun
    obtain ⟨_, ⟨⟩, ⟨front, p'⟩, hfront, ⟨back, q⟩, hback, hrun⟩ := hrun
    cases hrun
    exact ⟨hlaid.constantLines.declarations, hlaid.memberLines.declarations, start, p', q, front,
      back, rfl, hfront, hback, rfl⟩
  | anonymous hrun =>
    rw [anonymousClass] at hrun
    simp only [StateT.run_bind, bind_eq_ok] at hrun
    obtain ⟨⟨number, p⟩, hnumber, ⟨back, q⟩, hback, hrun⟩ := hrun
    cases hnumber
    cases hrun
    let counted : Progress := { start with anonymous := start.anonymous + 1 }
    exact ⟨rfl, by simp [Pair.unplaced, List.filterMap_map], counted, counted, q, [], back, rfl, rfl,
      hback, rfl⟩

theorem BodyRun.exists_converts
    (h : BodyRun source s known binding constants ds layout nodes)
    (hi : layout.pairs[i]? = some pair) (hd : pair.declaration = some d) :
    ∃ node, nodes[i]? = some node ∧
      Converts source { s with types := scopeOf binding ds :: s.types } s.locals
        (layout.variablesAt s.locals i) known (declaredBefore layout.pairs i) d node := by
  obtain ⟨hconstants, hmembers, p, p', q, front, back, rfl, hfront, hback, rfl⟩ := h
  have hlen : front.length = layout.constants.length := by
    simpa using congrArg List.length (membersFrom_gives 0 s.locals hconstants _ _ _ hfront)
  rw [Layout.pairs] at hi ⊢
  rcases Nat.lt_or_ge i layout.constants.length with hlt | hge
  · rw [List.getElem?_append_left hlt] at hi
    obtain ⟨node, hnode, hconverts⟩ := Convert.exists_converts hconstants hfront hi hd
    refine ⟨node, by rw [List.getElem?_append_left (hlen ▸ hlt), hnode], ?_⟩
    rw [Layout.variablesAt, if_pos hlt, declaredBefore, List.take_append_of_le_length hlt.le]
    exact hconverts
  · rw [List.getElem?_append_right hge] at hi
    obtain ⟨node, hnode, index, pair', p₁, found, q₁, hrun, hfound, hlookup⟩ :=
      Convert.exists_converts hmembers hback hi hd
    refine ⟨node, by rw [List.getElem?_append_right (hlen ▸ hge), hlen, hnode], index, pair', p₁,
      found, q₁, ?_, hfound, fun site hsite => ?_⟩
    · rw [Layout.variablesAt, if_neg hge.not_gt]
      exact hrun
    · rw [declaredBefore, List.take_append, List.take_of_length_le hge, List.filterMap_append,
        hconstants] at hsite
      have hnew : .call site ∉ mentionsOfMembers constants := by
        rw [mentionsOfMembers_eq, List.mem_flatMap]
        rintro ⟨e, he, hsite'⟩
        exact hsite e (List.mem_append_left _ he) hsite'
      rw [hlookup site fun e he => hsite e (List.mem_append_right _ he),
        membersFrom_lookup hfront hnew]

theorem BodyRun.declarations (h : BodyRun source s known binding constants ds layout nodes) :
    layout.pairs.filterMap (·.declaration) = constants ++ ds := by
  rw [Layout.pairs, List.filterMap_append, h.declaredConstants, h.declaredMembers]

-- ---------------------------------------------------------------------------
-- Bodies with the same members
-- ---------------------------------------------------------------------------

structure Conversion (s : Scopes) (binding : TypeBinding) where
  source : Source
  start : Progress
  constants : List Declaration
  declarations : List Declaration
  layout : Layout
  nodes : List Node
  converted : Converted source s start binding constants declarations layout nodes

namespace Conversion

variable {f : Position → Position} {x y : Conversion s binding}

def all (x : Conversion s binding) : List Declaration :=
  x.constants ++ x.declarations

def mentions (x : Conversion s binding) : List Mention :=
  mentionsOfMembers x.all

def variablesAt (x : Conversion s binding) (i : Nat) : Variables :=
  x.layout.variablesAt s.locals i

def Has (x : Conversion s binding) (i : Nat) (d : Declaration) : Prop :=
  ∃ pair, x.layout.pairs[i]? = some pair ∧ pair.declaration = some d

end Conversion

end Convert

def Declaration.isMethodNamed (name : String) (d : Declaration) : Bool :=
  (Convert.methodOf? d).any fun m => m.name == name && !m.isConstructor

def Declaration.isField : Declaration → Bool
  | .field .. => true
  | _ => false

namespace Convert

/-- The second body holds the members of the first, moved by `f` and in some other order. Methods of
one name keep their order, and so do fields. In the bodies of nested types nothing is moved. -/
structure Reordered (f : Position → Position) (x y : Conversion s binding) : Prop where
  constants : y.constants.Perm (relocateMembers f x.constants)
  declarations : y.declarations.Perm (relocateMembers f x.declarations)
  methods : ∀ name, y.declarations.filter (·.isMethodNamed name) =
    (relocateMembers f x.declarations).filter (·.isMethodNamed name)
  fields : y.declarations.filter (·.isField) = (relocateMembers f x.declarations).filter (·.isField)
  blocks : ∀ t, .type t ∈ x.mentions → SameBlocks x.source y.source f t

/-- Calls are told from each other by where they stand, in both bodies, and none of them was met
before. -/
structure TellsCalls (f : Position → Position) (x y : Conversion s binding) : Prop where
  apart : x.all.Pairwise fun d e => ∀ site, .call site ∈ d.mentions → .call site ∉ e.mentions
  injective : ∀ site site', .call site ∈ x.mentions → .call site' ∈ x.mentions →
    f site = f site' → site = site'
  new₁ : ∀ site, .call site ∈ x.mentions → x.start.resolved.lookup site = none
  new₂ : ∀ site, .call site ∈ x.mentions → y.start.resolved.lookup (f site) = none

namespace Conversion

variable {f : Position → Position} {x y : Conversion s binding}

theorem pairs_declarations (x : Conversion s binding) :
    x.layout.pairs.filterMap (·.declaration) = x.all :=
  x.converted.bodyRun.declarations

theorem Has.split (h : x.Has i d) :
    ∃ behind, x.all = declaredBefore x.layout.pairs i ++ d :: behind := by
  obtain ⟨pair, hi, hd⟩ := h
  obtain ⟨hlt, hget⟩ := List.getElem?_eq_some_iff.mp hi
  refine ⟨(x.layout.pairs.drop (i + 1)).filterMap (·.declaration), ?_⟩
  rw [← x.pairs_declarations, declaredBefore]
  conv_lhs => rw [← List.take_append_drop i x.layout.pairs, List.drop_eq_getElem_cons hlt, hget]
  rw [List.filterMap_append, List.filterMap_cons_some hd]

theorem Has.mem (h : x.Has i d) : d ∈ x.all := by
  obtain ⟨behind, hsplit⟩ := h.split
  rw [hsplit]
  exact List.mem_append_right _ List.mem_cons_self

theorem Has.apart (h : x.Has i d)
    (hapart : x.all.Pairwise fun d e => ∀ site, .call site ∈ d.mentions → .call site ∉ e.mentions) :
    ∀ e ∈ declaredBefore x.layout.pairs i, ∀ site, .call site ∈ d.mentions →
      .call site ∉ e.mentions := by
  obtain ⟨behind, hsplit⟩ := h.split
  rw [hsplit, List.pairwise_append] at hapart
  exact fun e he site hsite hsite' => hapart.2.2 e he d List.mem_cons_self site hsite' hsite

theorem exists_has (h : d ∈ x.all) : ∃ i, x.Has i d := by
  rw [← x.pairs_declarations] at h
  obtain ⟨pair, hpair, hd⟩ := List.mem_filterMap.mp h
  obtain ⟨i, hi⟩ := List.mem_iff_getElem?.mp hpair
  exact ⟨i, pair, hi, hd⟩

theorem mentions_subset (h : d ∈ x.all) : d.mentions ⊆ x.mentions := by
  intro m hm
  rw [mentions, mentionsOfMembers_eq]
  exact List.mem_flatMap.mpr ⟨d, h, hm⟩

theorem call_mem_relocate {d : Declaration} {site : Position} :
    .call site ∈ (d.relocate f).mentions ↔ ∃ site', .call site' ∈ d.mentions ∧ f site' = site := by
  rw [Declaration.mentions_relocate, List.mem_map]
  constructor
  · rintro ⟨_ | _ | _, hm, ⟨⟩⟩
    exact ⟨_, hm, rfl⟩
  · rintro ⟨site', hm, rfl⟩
    exact ⟨_, hm, rfl⟩

theorem all_perm (h : Reordered f x y) : y.all.Perm (relocateMembers f x.all) := by
  have hall := h.constants.append h.declarations
  rwa [relocateMembers_eq, relocateMembers_eq, ← List.map_append, ← relocateMembers_eq] at hall

theorem apart_of_reordered (h : Reordered f x y) (hcalls : TellsCalls f x y) :
    y.all.Pairwise fun d e => ∀ site, .call site ∈ d.mentions → .call site ∉ e.mentions := by
  rw [(all_perm h).pairwise_iff fun hde site he hd => hde site hd he, relocateMembers_eq,
    List.pairwise_map]
  refine hcalls.apart.imp_of_mem fun hd he hapart site hsite hsite' => ?_
  obtain ⟨p, hp, rfl⟩ := call_mem_relocate.mp hsite
  obtain ⟨q, hq, heq⟩ := call_mem_relocate.mp hsite'
  obtain rfl := hcalls.injective q p (mentions_subset he hq) (mentions_subset hd hp) heq
  exact hapart q hp hq

theorem methodsNamed_scopeOf (binding : TypeBinding) (ds : List Declaration) (name : String) :
    (scopeOf binding ds).methodsNamed name =
      (ds.filter (·.isMethodNamed name)).filterMap methodOf? := by
  rw [Scope.methodsNamed, scopeOf]
  induction ds with
  | nil => rfl
  | cons d ds ih =>
    cases hm : methodOf? d with
    | none => simpa [hm, Declaration.isMethodNamed] using ih
    | some m =>
      rw [List.filterMap_cons_some hm, List.filter_cons, List.filter_cons, ih,
        Declaration.isMethodNamed, hm, Option.any_some]
      split
      · rw [List.filterMap_cons_some hm]
      · rfl

theorem fields_scopeOf (binding : TypeBinding) (ds : List Declaration) :
    (scopeOf binding ds).fields = (ds.filter (·.isField)).reverse.flatMap fieldsOf := by
  rw [← List.filter_reverse]
  show ds.reverse.flatMap fieldsOf = _
  induction ds.reverse with
  | nil => rfl
  | cons d ds ih =>
    rw [List.flatMap_cons, ih]
    cases d <;> rfl

theorem sameScope_of_reordered (h : Reordered f x y) (r : Comparison) :
    r.SameScope (scopeOf binding x.declarations) (scopeOf binding y.declarations) := by
  rw [← Comparison.scopeOf_relocate f]
  refine ⟨.refl binding, fun name => ?_, ?_⟩
  · rw [methodsNamed_scopeOf, methodsNamed_scopeOf, h.methods]
  · rw [fields_scopeOf, fields_scopeOf, h.fields]

theorem exists_calls_same (h : Reordered f x y) (hcalls : TellsCalls f x y) (hi : x.Has i d)
    (hj : y.Has j (d.relocate f))
    (hvariables : ∀ t, d = .type t → ∀ name, .name name ∈ t.mentions →
      (x.variablesAt i).lookup name = (y.variablesAt j).lookup name) :
    ∃ n₁ n₂ k l, x.nodes[i]? = some n₁ ∧ y.nodes[j]? = some n₂ ∧
      List.Forall₂ (Node.SameCall k l) n₁.calls n₂.calls := by
  have hd : d.mentions ⊆ x.mentions := mentions_subset hi.mem
  have hapart₁ := hi.apart hcalls.apart
  have hapart₂ := hj.apart (apart_of_reordered h hcalls)
  obtain ⟨pair₁, hpair₁, hd₁⟩ := hi
  obtain ⟨pair₂, hpair₂, hd₂⟩ := hj
  obtain ⟨n₁, hn₁, index₁, pair₁', p₁, found₁, q₁, hrun₁, rfl, hlookup₁⟩ :=
    x.converted.bodyRun.exists_converts hpair₁ hd₁
  obtain ⟨n₂, hn₂, index₂, pair₂', p₂, found₂, q₂, hrun₂, rfl, hlookup₂⟩ :=
    y.converted.bodyRun.exists_converts hpair₂ hd₂
  let r : Comparison :=
    { source₁ := x.source, source₂ := y.source, f, mentions := d.mentions, start₁ := p₁
      start₂ := p₂
      injective := fun site site' hsite hsite' => hcalls.injective site site' (hd hsite) (hd hsite')
      blocks := fun t ht => h.blocks t (hd ht) }
  have hstart : r.InStep p₁ p₂ := by
    refine Comparison.inStep_start (r := r) (fun site hsite => ?_) fun site hsite => ?_
    · exact (hlookup₁ site fun e he => hapart₁ e he site hsite).trans (hcalls.new₁ site (hd hsite))
    · have hmoved : .call (f site) ∈ (d.relocate f).mentions :=
        call_mem_relocate.mpr ⟨site, hsite, rfl⟩
      exact (hlookup₂ (f site) fun e he => hapart₂ e he (f site) hmoved).trans
        (hcalls.new₂ site (hd hsite))
  have hscopes : r.SameScopes { s with types := scopeOf binding x.declarations :: s.types }
      { s with types := scopeOf binding y.declarations :: s.types } :=
    ⟨.cons (sameScope_of_reordered h r) (Comparison.SameScopes.refl s).types, fun _ _ => rfl⟩
  have hcurrent : ∀ t, d = .type t → r.SameVariables (x.variablesAt i) (y.variablesAt j) := by
    rintro t rfl name hname
    refine hvariables t rfl name ?_
    rw [show r.mentions = (Declaration.type t).mentions from rfl, Declaration.mentions] at hname
    simpa using hname
  have hlocals : r.SameVariables s.locals s.locals := fun _ _ => rfl
  have hstep := Comparison.member_lockstep hscopes hlocals index₁ index₂ pair₁' pair₂' d hcurrent
    (List.Subset.refl _)
  obtain ⟨⟨hsame, -⟩, -⟩ := hstep p₁ p₂ found₁ found₂ q₁ q₂ hstart hrun₁ hrun₂
  exact ⟨found₁.1, found₂.1, p₁.anonymous, p₂.anonymous, hn₁, hn₂,
    Node.SameCalls.singleton_iff.mp hsame⟩

-- ---------------------------------------------------------------------------
-- A nested type that changes places with a method
-- ---------------------------------------------------------------------------

structure IsPlain (x : Conversion s binding) : Prop where
  constants : x.layout.constants = []
  members : x.layout.members.map (·.declaration) = x.declarations.map some

theorem IsPlain.has (h : x.IsPlain) (hi : x.declarations[i]? = some d) : x.Has i d := by
  have hmap : (x.layout.members.map (·.declaration))[i]? = some (some d) := by
    rw [h.members, List.getElem?_map, hi]
    rfl
  rw [List.getElem?_map] at hmap
  obtain ⟨pair, hpair, hd⟩ := Option.map_eq_some_iff.mp hmap
  exact ⟨pair, by rw [Layout.pairs, h.constants]; exact hpair, hd⟩

theorem IsPlain.variablesAt_eq (h : x.IsPlain) (i : Nat) :
    x.variablesAt i = variablesBehind s.locals s.locals ((x.declarations.take i).map some) := by
  rw [variablesAt, Layout.variablesAt, h.constants]
  simp only [List.length_nil, Nat.not_lt_zero, if_false, Nat.sub_zero, List.map_take, h.members]

theorem exists_isPlain {source : Source} {calls : List (List (String × Option MethodBinding))}
    (hplain : allDeclared source (.mk head annotations [] ds) = true)
    (hcalls : ((typeNode source s index span binding (.mk head annotations [] ds)).run
      p).toOption.map (fun found => found.1.children.map Node.calls) = some calls) :
    ∃ x : Conversion s binding, x.source = source ∧ x.start = p ∧ x.constants = [] ∧
      x.declarations = ds ∧ x.IsPlain ∧ x.nodes.map Node.calls = calls := by
  obtain ⟨⟨n, q⟩, hrun, hcalls⟩ := Option.map_eq_some_iff.mp hcalls
  have hrun := toOption_eq_some hrun
  obtain ⟨layout, hlayout⟩ := exists_layout hrun
  obtain ⟨header, nodes, rfl⟩ := typeNode_gives_type _ _ _ _ _ _ _ hrun
  obtain ⟨body, hlaid⟩ := layoutOf_ok hlayout
  have hconstants : layout.constants = [] := by
    simpa using Comparison.map_isNone_constants hlaid
  exact ⟨⟨source, p, [], ds, layout, nodes, .type hlayout hrun⟩, rfl, rfl, rfl, rfl,
    ⟨hconstants, map_declaration_members hplain hlayout⟩, hcalls⟩

/-- A nested type and the member in front of it change places. -/
theorem reordered_swap {ds : List Declaration} {m : Declaration} {t : TypeDeclaration}
    (hconstants₁ : x.constants = []) (hconstants₂ : y.constants = [])
    (hx : x.declarations = ds ++ [m, .type t])
    (hy : y.declarations = relocateMembers f (ds ++ [.type t, m]))
    (hblocks : ∀ t, .type t ∈ x.mentions → SameBlocks x.source y.source f t) : Reordered f x y := by
  have hkept (p : Declaration → Bool) (htype : ∀ t, p (.type t) = false) :
      y.declarations.filter p = (relocateMembers f x.declarations).filter p := by
    simp [hx, hy, relocateMembers_eq, List.filter_append, List.filter_cons, Declaration.relocate,
      htype]
  refine ⟨?_, ?_, fun name => hkept _ fun _ => rfl, hkept _ fun _ => rfl, hblocks⟩
  · rw [hconstants₁, hconstants₂, relocateMembers]
  · rw [hx, hy, relocateMembers_eq, relocateMembers_eq, List.map_append, List.map_append]
    exact (List.Perm.swap ..).append_left _

def wordTokens (column : Nat) : List String → List Token
  | [] => []
  | word :: words =>
    ⟨.identifier, word, ⟨1, column⟩⟩ :: wordTokens (column + word.length + 1) words

def wordSource (words : List String) : Source :=
  { text := (" ".intercalate words).toList, lineStarts := [0], tokens := wordTokens 1 words }

def classSource (words : List String) : Source :=
  wordSource (["class", "A", "\x7b", "String", "x", ";",
    "void", "f", "(", "int", "a", ")", "\x7b", "\x7d",
    "void", "f", "(", "String", "s", ")", "\x7b", "\x7d"] ++ words ++ ["\x7d"])

def methodWords (parameter : String) : List String :=
  ["void", "m", "(", "int", parameter, ")", "\x7b", "\x7d"]

def nestedWords : List String :=
  ["class", "B", "\x7b", "void", "g", "(", ")", "\x7b", "f", "(", "x", ")", ";", "\x7d", "\x7d"]

def frontMembers : List Declaration :=
  [.field { type := .named (.mk "String" []) [] 0, declarators := [⟨"x", 0⟩], isConstant := false }
    [] [],
   .method { name := "f", parameters := [{ typeText := "int", name := "a" }] } []
    [.declare [("a", "int")] []] [],
   .method { name := "f", parameters := [{ typeText := "String", name := "s" }] } []
    [.declare [("s", "String")] []] []]

def methodWith (parameter : String) : Declaration :=
  .method { name := "m", parameters := [{ typeText := "int", name := parameter }] } []
    [.declare [(parameter, "int")] []] []

def nestedClass (column : Nat) : TypeDeclaration :=
  .mk { kind := .class_, name := "B", position := ⟨1, column⟩ } [] []
    [.method { name := "g" } [] [] [.call ⟨1, column + 23⟩ "" "f" [.name "" "x"]]]

def classWith (members : List Declaration) : TypeDeclaration :=
  .mk { kind := .class_, name := "A", position := ⟨1, 1⟩ } [] [] (frontMembers ++ members)

def classBinding : TypeBinding :=
  { name := "A", key := "A" }

def boundCall (typeText : String) : String × Option MethodBinding :=
  ("f", some ⟨"f", [typeText], some classBinding⟩)

def toFront (p : Position) : Position :=
  ⟨p.line, p.column - 21⟩

theorem nestedClass_relocate : (nestedClass 88).relocate toFront = nestedClass 67 := by
  simp [nestedClass, toFront, TypeDeclaration.relocate, TypeHead.relocate, relocateAll,
    relocateMembers, Declaration.relocate, Code.relocate]

structure Evaluates (source : Source) (column : Nat) (members : List Declaration)
    (calls : List (List (String × Option MethodBinding))) : Prop where
  plain : allDeclared source (classWith members) = true
  nested : allDeclared source (nestedClass column) = true
  calls : ((typeNode source {} 0 none classBinding (classWith members)).run {}).toOption.map
    (fun found => found.1.children.map Node.calls) = some calls

/-- The nested class behind the method and in front of it, and the parameters of the methods that
its call is bound to. -/
structure Swapped (parameter typeText₁ typeText₂ : String) (x y : Conversion {} classBinding) :
    Prop where
  reordered : Reordered toFront x y
  tellsCalls : TellsCalls toFront x y
  has₁ : x.Has 4 (.type (nestedClass 88))
  has₂ : y.Has 3 ((Declaration.type (nestedClass 88)).relocate toFront)
  variables₁ : x.variablesAt 4 = [(parameter, "int")]
  variables₂ : y.variablesAt 3 = [("s", "String")]
  calls₁ : (x.nodes.map Node.calls)[4]? = some [boundCall typeText₁]
  calls₂ : (y.nodes.map Node.calls)[3]? = some [boundCall typeText₂]

theorem exists_swapped {parameter typeText₁ typeText₂ : String}
    (h₁ : Evaluates (classSource (methodWords parameter ++ nestedWords)) 88
      [methodWith parameter, .type (nestedClass 88)] [[], [], [], [], [boundCall typeText₁]])
    (h₂ : Evaluates (classSource (nestedWords ++ methodWords parameter)) 67
      [.type (nestedClass 67), methodWith parameter] [[], [], [], [boundCall typeText₂], []]) :
    ∃ x y, Swapped parameter typeText₁ typeText₂ x y := by
  obtain ⟨x, hsource₁, hstart₁, hconstants₁, hx, hplain₁, hcalls₁⟩ :=
    exists_isPlain h₁.plain h₁.calls
  obtain ⟨y, hsource₂, hstart₂, hconstants₂, hy, hplain₂, hcalls₂⟩ :=
    exists_isPlain h₂.plain h₂.calls
  have hmentions : x.mentions = [.type (nestedClass 88), .call ⟨1, 111⟩, .name "x"] := by
    rw [mentions, all, hconstants₁, hx]
    rfl
  refine ⟨x, y, ?_, ⟨?_, ?_, ?_, ?_⟩, hplain₁.has (by rw [hx]; rfl), ?_, ?_, ?_, ?_, ?_⟩
  · refine reordered_swap hconstants₁ hconstants₂ hx ?_ fun t ht => ?_
    · simp [hy, frontMembers, methodWith, relocateMembers, Declaration.relocate, relocateAll,
        Code.relocate, nestedClass_relocate]
    · obtain rfl : t = nestedClass 88 := by simpa [hmentions] using ht
      rw [hsource₁, hsource₂]
      exact sameBlocks_of_allDeclared h₁.nested (nestedClass_relocate ▸ h₂.nested)
  · simp [all, hconstants₁, hx, frontMembers, methodWith, Declaration.mentions, mentionsOfAll]
  · rw [hmentions]
    rintro site site' hsite hsite' -
    simp_all
  · exact fun _ _ => hstart₁ ▸ rfl
  · exact fun _ _ => hstart₂ ▸ rfl
  · rw [Declaration.relocate, nestedClass_relocate]
    exact hplain₂.has (by rw [hy]; rfl)
  · rw [hplain₁.variablesAt_eq, hx]
    rfl
  · rw [hplain₂.variablesAt_eq, hy]
    rfl
  · rw [hcalls₁]
    rfl
  · rw [hcalls₂]
    rfl

-- ---------------------------------------------------------------------------
-- Any order
-- ---------------------------------------------------------------------------

/-- Moving the members of a body about does not change what the calls in a member are bound to, up
to the numbers of anonymous classes. A nested type may see variables of the member in front of it;
its calls are bound alike where those agree on the names that it mentions. -/
theorem calls_same_of_reordered (h : Reordered f x y) (hcalls : TellsCalls f x y)
    (hi : x.Has i d) :
    (∃ j, y.Has j (d.relocate f)) ∧
      ∀ j, y.Has j (d.relocate f) →
        (∀ t, d = .type t → ∀ name, .name name ∈ t.mentions →
          (x.variablesAt i).lookup name = (y.variablesAt j).lookup name) →
        ∃ n₁ n₂ k l, x.nodes[i]? = some n₁ ∧ y.nodes[j]? = some n₂ ∧
          List.Forall₂ (Node.SameCall k l) n₁.calls n₂.calls := by
  obtain ⟨behind, hsplit⟩ := hi.split
  refine ⟨exists_has ?_, fun j hj hvariables => exists_calls_same h hcalls hi hj hvariables⟩
  rw [(all_perm h).mem_iff, relocateMembers_eq]
  exact List.mem_map_of_mem (by rw [hsplit]; simp)

theorem calls_same_of_reordered_nestedClass :
    ∃ x y : Conversion {} classBinding, Reordered toFront x y ∧ TellsCalls toFront x y ∧
      x.Has 4 (.type (nestedClass 88)) ∧
      y.Has 3 ((Declaration.type (nestedClass 88)).relocate toFront) ∧
      (∀ t, Declaration.type (nestedClass 88) = .type t → ∀ name, .name name ∈ t.mentions →
        (x.variablesAt 4).lookup name = (y.variablesAt 3).lookup name) ∧
      ∃ n₁ n₂ k l, x.nodes[4]? = some n₁ ∧ y.nodes[3]? = some n₂ ∧
        List.Forall₂ (Node.SameCall k l) n₁.calls n₂.calls := by
  obtain ⟨x, y, h⟩ : ∃ x y, Swapped "y" "String" "String" x y :=
    exists_swapped ⟨by decide +kernel, by decide +kernel, by decide +kernel⟩
      ⟨by decide +kernel, by decide +kernel, by decide +kernel⟩
  have hvariables : ∀ t, Declaration.type (nestedClass 88) = .type t →
      ∀ name, .name name ∈ t.mentions →
        (x.variablesAt 4).lookup name = (y.variablesAt 3).lookup name := by
    rintro t ⟨⟩ name hname
    obtain rfl : name = "x" := by
      simpa [nestedClass, TypeDeclaration.mentions, mentionsOfMembers, Declaration.mentions,
        mentionsOfAll, Code.mentions] using hname
    rw [h.variables₁, h.variables₂]
    decide
  exact ⟨x, y, h.reordered, h.tellsCalls, h.has₁, h.has₂, hvariables,
    (calls_same_of_reordered h.reordered h.tellsCalls h.has₁).2 3 h.has₂ hvariables⟩

/-- A class behind a method with a variable that it mentions is bound by that variable. -/
theorem calls_not_same_behind_variable :
    ¬ ∀ (x y : Conversion {} classBinding) (f : Position → Position) (i j : Nat) (d : Declaration),
      Reordered f x y → TellsCalls f x y → x.Has i d → y.Has j (d.relocate f) →
        ∃ n₁ n₂ k l, x.nodes[i]? = some n₁ ∧ y.nodes[j]? = some n₂ ∧
          List.Forall₂ (Node.SameCall k l) n₁.calls n₂.calls := by
  intro hsame
  obtain ⟨x, y, h⟩ : ∃ x y, Swapped "x" "int" "String" x y :=
    exists_swapped ⟨by decide +kernel, by decide +kernel, by decide +kernel⟩
      ⟨by decide +kernel, by decide +kernel, by decide +kernel⟩
  obtain ⟨n₁, n₂, k, l, hn₁, hn₂, hcalls⟩ :=
    hsame x y toFront 4 3 _ h.reordered h.tellsCalls h.has₁ h.has₂
  have h₁ : n₁.calls = [boundCall "int"] := by simpa [hn₁] using h.calls₁
  have h₂ : n₂.calls = [boundCall "String"] := by simpa [hn₂] using h.calls₂
  rw [h₁, h₂, List.forall₂_cons] at hcalls
  obtain ⟨⟨-, hbinding⟩, -⟩ := hcalls
  cases hbinding with
  | some h => simpa using h.parameterTypes

end Conversion

end Convert

end CallerFirst.Java
