import CallerFirst.Java.Convert

/-!
# Code at other places

`relocate` moves code to other places of a text: calls and the headers of types get new positions,
and all else is kept. `mentions` lists what the conversion of a piece of code may ask for.
-/

namespace CallerFirst.Java

def TypeHead.relocate (f : Position → Position) (head : TypeHead) : TypeHead :=
  { head with position := f head.position }

mutual
def Code.relocate (f : Position → Position) : Code → Code
  | .literal text => .literal text
  | .name qualifier member => .name qualifier member
  | .this qualifier => .this qualifier
  | .call site qualifier member arguments =>
    .call (f site) qualifier member (relocateAll f arguments)
  | .create type arguments body => .create type (relocateAll f arguments) (relocateBody f body)
  | .createInner arguments body => .createInner (relocateAll f arguments) (relocateBody f body)
  | .createArray type dimensions parts => .createArray type dimensions (relocateAll f parts)
  | .cast type operand => .cast type (operand.relocate f)
  | .binary operator left right => .binary operator (left.relocate f) (right.relocate f)
  | .conditional condition whenTrue whenFalse =>
    .conditional (condition.relocate f) (whenTrue.relocate f) (whenFalse.relocate f)
  | .select target selectors => .select (target.relocate f) (relocateAll f selectors)
  | .declare declared parts => .declare declared (relocateAll f parts)
  | .localType declaration => .localType (declaration.relocate f)
  | .primary parts => .primary (relocateAll f parts)
  | .compound parts => .compound (relocateAll f parts)
def Declaration.relocate (f : Position → Position) : Declaration → Declaration
  | .method header annotations parameters body =>
    .method header (relocateAll f annotations) (relocateAll f parameters) (relocateAll f body)
  | .field head annotations initializers =>
    .field head (relocateAll f annotations) (relocateAll f initializers)
  | .enumConstant name annotations arguments body =>
    .enumConstant name (relocateAll f annotations) (relocateAll f arguments) (relocateBody f body)
  | .annotationMember name returnType annotations default =>
    .annotationMember name returnType (relocateAll f annotations) (relocateAll f default)
  | .block statements => .block (relocateAll f statements)
  | .type declaration => .type (declaration.relocate f)
def TypeDeclaration.relocate (f : Position → Position) : TypeDeclaration → TypeDeclaration
  | .mk head annotations constants declarations =>
    .mk (head.relocate f) (relocateAll f annotations) (relocateMembers f constants)
      (relocateMembers f declarations)
def relocateAll (f : Position → Position) : List Code → List Code
  | [] => []
  | c :: rest => c.relocate f :: relocateAll f rest
def relocateMembers (f : Position → Position) : List Declaration → List Declaration
  | [] => []
  | d :: rest => d.relocate f :: relocateMembers f rest
def relocateBody (f : Position → Position) : Option (List Declaration) → Option (List Declaration)
  | none => none
  | some declarations => some (relocateMembers f declarations)
end

theorem relocateMembers_eq (f : Position → Position) (ds : List Declaration) :
    relocateMembers f ds = ds.map (·.relocate f) := by
  induction ds with
  | nil => rfl
  | cons d ds ih => rw [relocateMembers, ih, List.map_cons]

@[simp] theorem TypeDeclaration.name_relocate (f : Position → Position) (t : TypeDeclaration) :
    (t.relocate f).head.name = t.head.name := by
  cases t
  rw [TypeDeclaration.relocate]
  rfl

theorem Code.isPrimary_relocate (f : Position → Position) (c : Code) :
    (c.relocate f).isPrimary = c.isPrimary := by
  cases c <;> rw [Code.relocate] <;> rfl

theorem Code.relocate_ne_this (f : Position → Position) {c : Code}
    (h : ∀ qualifier, c ≠ .this qualifier) (qualifier : String) : c.relocate f ≠ .this qualifier := by
  cases c with
  | this => exact absurd rfl (h _)
  | _ => simp [Code.relocate]

theorem Code.relocate_ne_call (f : Position → Position) {c : Code}
    (h : ∀ site qualifier member arguments, c ≠ .call site qualifier member arguments)
    (site : Position) (qualifier member : String) (arguments : List Code) :
    c.relocate f ≠ .call site qualifier member arguments := by
  cases c with
  | call => exact absurd rfl (h _ _ _ _)
  | _ => simp [Code.relocate]

-- ---------------------------------------------------------------------------
-- What code mentions
-- ---------------------------------------------------------------------------

/-- What the conversion of code may ask for: the call at a site, the type of a variable or field,
the layout of a nested type. -/
inductive Mention where
  | call (site : Position)
  | name (text : String)
  | type (declaration : TypeDeclaration)

def Mention.relocate (f : Position → Position) : Mention → Mention
  | call site => .call (f site)
  | name text => .name text
  | type declaration => .type (declaration.relocate f)

mutual
def Code.mentions : Code → List Mention
  | .literal _ | .this _ => []
  | .name qualifier member => if qualifier.isEmpty then [.name member] else []
  | .call site _ _ arguments => .call site :: mentionsOfAll arguments
  | .create _ arguments body => mentionsOfAll arguments ++ mentionsOfBody body
  | .createInner arguments body => mentionsOfAll arguments ++ mentionsOfBody body
  | .createArray _ _ parts => mentionsOfAll parts
  | .cast _ operand => operand.mentions
  | .binary _ left right => left.mentions ++ right.mentions
  | .conditional condition whenTrue whenFalse =>
    condition.mentions ++ whenTrue.mentions ++ whenFalse.mentions
  | .select target selectors => target.mentions ++ mentionsOfAll selectors
  | .declare _ parts => mentionsOfAll parts
  | .localType declaration => .type declaration :: declaration.mentions
  | .primary parts => mentionsOfAll parts
  | .compound parts => mentionsOfAll parts
def Declaration.mentions : Declaration → List Mention
  | .method _ _ _ body => mentionsOfAll body
  | .field _ _ initializers => mentionsOfAll initializers
  | .enumConstant _ _ arguments body => mentionsOfAll arguments ++ mentionsOfBody body
  | .annotationMember .. => []
  | .block statements => mentionsOfAll statements
  | .type declaration => .type declaration :: declaration.mentions
def TypeDeclaration.mentions : TypeDeclaration → List Mention
  | .mk _ _ constants declarations => mentionsOfMembers constants ++ mentionsOfMembers declarations
def mentionsOfAll : List Code → List Mention
  | [] => []
  | c :: rest => c.mentions ++ mentionsOfAll rest
def mentionsOfMembers : List Declaration → List Mention
  | [] => []
  | d :: rest => d.mentions ++ mentionsOfMembers rest
def mentionsOfBody : Option (List Declaration) → List Mention
  | none => []
  | some declarations => mentionsOfMembers declarations
end

theorem mentionsOfMembers_eq (ds : List Declaration) :
    mentionsOfMembers ds = ds.flatMap Declaration.mentions := by
  induction ds with
  | nil => rfl
  | cons d ds ih => rw [mentionsOfMembers, ih, List.flatMap_cons]

-- ---------------------------------------------------------------------------
-- Laws
-- ---------------------------------------------------------------------------

mutual
theorem Code.relocate_id : (c : Code) → c.relocate id = c
  | .literal _ | .name _ _ | .this _ => by simp only [Code.relocate]
  | .call _ _ _ cs | .createArray _ _ cs | .declare _ cs | .primary cs | .compound cs => by
    simp only [Code.relocate, relocateAll_id cs, id]
  | .create _ cs body | .createInner cs body => by
    simp only [Code.relocate, relocateAll_id cs, relocateBody_id body]
  | .cast _ c => by simp only [Code.relocate, Code.relocate_id c]
  | .binary _ c₁ c₂ => by simp only [Code.relocate, Code.relocate_id c₁, Code.relocate_id c₂]
  | .conditional c₁ c₂ c₃ => by
    simp only [Code.relocate, Code.relocate_id c₁, Code.relocate_id c₂, Code.relocate_id c₃]
  | .select c cs => by simp only [Code.relocate, Code.relocate_id c, relocateAll_id cs]
  | .localType t => by simp only [Code.relocate, TypeDeclaration.relocate_id t]

theorem Declaration.relocate_id : (d : Declaration) → d.relocate id = d
  | .method _ cs₁ cs₂ cs₃ => by
    simp only [Declaration.relocate, relocateAll_id cs₁, relocateAll_id cs₂, relocateAll_id cs₃]
  | .field _ cs₁ cs₂ | .annotationMember _ _ cs₁ cs₂ => by
    simp only [Declaration.relocate, relocateAll_id cs₁, relocateAll_id cs₂]
  | .enumConstant _ cs₁ cs₂ body => by
    simp only [Declaration.relocate, relocateAll_id cs₁, relocateAll_id cs₂, relocateBody_id body]
  | .block cs => by simp only [Declaration.relocate, relocateAll_id cs]
  | .type t => by simp only [Declaration.relocate, TypeDeclaration.relocate_id t]

theorem TypeDeclaration.relocate_id : (t : TypeDeclaration) → t.relocate id = t
  | .mk _ cs ds₁ ds₂ => by
    simp only [TypeDeclaration.relocate, TypeHead.relocate, relocateAll_id cs,
      relocateMembers_id ds₁, relocateMembers_id ds₂, id]

theorem relocateAll_id : (cs : List Code) → relocateAll id cs = cs
  | [] => by simp only [relocateAll]
  | c :: cs => by simp only [relocateAll, Code.relocate_id c, relocateAll_id cs]

theorem relocateMembers_id : (ds : List Declaration) → relocateMembers id ds = ds
  | [] => by simp only [relocateMembers]
  | d :: ds => by simp only [relocateMembers, Declaration.relocate_id d, relocateMembers_id ds]

theorem relocateBody_id : (body : Option (List Declaration)) → relocateBody id body = body
  | none => by simp only [relocateBody]
  | some ds => by simp only [relocateBody, relocateMembers_id ds]
end

section

variable (f : Position → Position)

mutual
theorem Code.locals_relocate : (c : Code) → (c.relocate f).locals = c.locals
  | .literal _ | .name _ _ | .this _ => by simp only [Code.relocate, Code.locals]
  | .call _ _ _ cs | .createArray _ _ cs | .declare _ cs | .primary cs | .compound cs => by
    simp only [Code.relocate, Code.locals, localsOfAll_relocate cs]
  | .create _ cs body | .createInner cs body => by
    simp only [Code.relocate, Code.locals, localsOfAll_relocate cs, localsOfBody_relocate body]
  | .cast _ c => by simp only [Code.relocate, Code.locals, Code.locals_relocate c]
  | .binary _ c₁ c₂ => by
    simp only [Code.relocate, Code.locals, Code.locals_relocate c₁, Code.locals_relocate c₂]
  | .conditional c₁ c₂ c₃ => by
    simp only [Code.relocate, Code.locals, Code.locals_relocate c₁, Code.locals_relocate c₂,
      Code.locals_relocate c₃]
  | .select c cs => by
    simp only [Code.relocate, Code.locals, Code.isPrimary_relocate, Code.locals_relocate c,
      localsOfAll_relocate cs]
  | .localType t => by simp only [Code.relocate, Code.locals, TypeDeclaration.locals_relocate t]

theorem Declaration.locals_relocate : (d : Declaration) → (d.relocate f).locals = d.locals
  | .method _ cs₁ cs₂ cs₃ => by
    simp only [Declaration.relocate, Declaration.locals, localsOfAll_relocate cs₁,
      localsOfAll_relocate cs₂, localsOfAll_relocate cs₃]
  | .field _ cs₁ cs₂ | .annotationMember _ _ cs₁ cs₂ => by
    simp only [Declaration.relocate, Declaration.locals, localsOfAll_relocate cs₁,
      localsOfAll_relocate cs₂]
  | .enumConstant _ cs₁ cs₂ body => by
    simp only [Declaration.relocate, Declaration.locals, localsOfAll_relocate cs₁,
      localsOfAll_relocate cs₂, localsOfBody_relocate body]
  | .block cs => by simp only [Declaration.relocate, Declaration.locals, localsOfAll_relocate cs]
  | .type t => by
    simp only [Declaration.relocate, Declaration.locals, TypeDeclaration.locals_relocate t]

theorem TypeDeclaration.locals_relocate :
    (t : TypeDeclaration) → (t.relocate f).locals = t.locals
  | .mk _ cs ds₁ ds₂ => by
    simp only [TypeDeclaration.relocate, TypeDeclaration.locals, localsOfAll_relocate cs,
      localsOfMembers_relocate ds₁, localsOfMembers_relocate ds₂]

theorem localsOfAll_relocate : (cs : List Code) → localsOfAll (relocateAll f cs) = localsOfAll cs
  | [] => by simp only [relocateAll]
  | c :: cs => by
    simp only [relocateAll, localsOfAll, Code.locals_relocate c, localsOfAll_relocate cs]

theorem localsOfMembers_relocate :
    (ds : List Declaration) → localsOfMembers (relocateMembers f ds) = localsOfMembers ds
  | [] => by simp only [relocateMembers]
  | d :: ds => by
    simp only [relocateMembers, localsOfMembers, Declaration.locals_relocate d,
      localsOfMembers_relocate ds]

theorem localsOfBody_relocate :
    (body : Option (List Declaration)) → localsOfBody (relocateBody f body) = localsOfBody body
  | none => by simp only [relocateBody]
  | some ds => by simp only [relocateBody, localsOfBody, localsOfMembers_relocate ds]
end

mutual
theorem Code.mentions_relocate :
    (c : Code) → (c.relocate f).mentions = c.mentions.map (Mention.relocate f)
  | .literal _ | .this _ => by simp only [Code.relocate, Code.mentions, List.map_nil]
  | .name qualifier _ => by
    cases h : qualifier.isEmpty <;> simp [Code.relocate, Code.mentions, h, Mention.relocate]
  | .call _ _ _ cs | .createArray _ _ cs | .declare _ cs | .primary cs | .compound cs => by
    simp only [Code.relocate, Code.mentions, mentionsOfAll_relocate cs, List.map_cons,
      Mention.relocate]
  | .create _ cs body | .createInner cs body => by
    simp only [Code.relocate, Code.mentions, mentionsOfAll_relocate cs,
      mentionsOfBody_relocate body, List.map_append]
  | .cast _ c => by simp only [Code.relocate, Code.mentions, Code.mentions_relocate c]
  | .binary _ c₁ c₂ => by
    simp only [Code.relocate, Code.mentions, Code.mentions_relocate c₁, Code.mentions_relocate c₂,
      List.map_append]
  | .conditional c₁ c₂ c₃ => by
    simp only [Code.relocate, Code.mentions, Code.mentions_relocate c₁, Code.mentions_relocate c₂,
      Code.mentions_relocate c₃, List.map_append]
  | .select c cs => by
    simp only [Code.relocate, Code.mentions, Code.mentions_relocate c, mentionsOfAll_relocate cs,
      List.map_append]
  | .localType t => by
    simp only [Code.relocate, Code.mentions, TypeDeclaration.mentions_relocate t, List.map_cons,
      Mention.relocate]

theorem Declaration.mentions_relocate :
    (d : Declaration) → (d.relocate f).mentions = d.mentions.map (Mention.relocate f)
  | .method _ _ _ cs | .field _ _ cs | .block cs => by
    simp only [Declaration.relocate, Declaration.mentions, mentionsOfAll_relocate cs]
  | .annotationMember .. => by simp only [Declaration.relocate, Declaration.mentions, List.map_nil]
  | .enumConstant _ _ cs body => by
    simp only [Declaration.relocate, Declaration.mentions, mentionsOfAll_relocate cs,
      mentionsOfBody_relocate body, List.map_append]
  | .type t => by
    simp only [Declaration.relocate, Declaration.mentions, TypeDeclaration.mentions_relocate t,
      List.map_cons, Mention.relocate]

theorem TypeDeclaration.mentions_relocate :
    (t : TypeDeclaration) → (t.relocate f).mentions = t.mentions.map (Mention.relocate f)
  | .mk _ _ ds₁ ds₂ => by
    simp only [TypeDeclaration.relocate, TypeDeclaration.mentions, mentionsOfMembers_relocate ds₁,
      mentionsOfMembers_relocate ds₂, List.map_append]

theorem mentionsOfAll_relocate : (cs : List Code) →
    mentionsOfAll (relocateAll f cs) = (mentionsOfAll cs).map (Mention.relocate f)
  | [] => by simp only [relocateAll, mentionsOfAll, List.map_nil]
  | c :: cs => by
    simp only [relocateAll, mentionsOfAll, Code.mentions_relocate c, mentionsOfAll_relocate cs,
      List.map_append]

theorem mentionsOfMembers_relocate : (ds : List Declaration) →
    mentionsOfMembers (relocateMembers f ds) = (mentionsOfMembers ds).map (Mention.relocate f)
  | [] => by simp only [relocateMembers, mentionsOfMembers, List.map_nil]
  | d :: ds => by
    simp only [relocateMembers, mentionsOfMembers, Declaration.mentions_relocate d,
      mentionsOfMembers_relocate ds, List.map_append]

theorem mentionsOfBody_relocate : (body : Option (List Declaration)) →
    mentionsOfBody (relocateBody f body) = (mentionsOfBody body).map (Mention.relocate f)
  | none => by simp only [relocateBody, mentionsOfBody, List.map_nil]
  | some ds => by simp only [relocateBody, mentionsOfBody, mentionsOfMembers_relocate ds]
end

end

end CallerFirst.Java
