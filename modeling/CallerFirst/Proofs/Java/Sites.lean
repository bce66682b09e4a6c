import CallerFirst.Proofs.Java.Relocation

/-!
# Where calls stand

`sites` lists the places of the calls that the conversion of a piece of code may come to. It is taken
of anything that a rule of the grammar can return, and is empty for what has no code in it.
-/

namespace CallerFirst.Java

def Mention.site? : Mention → Option Position
  | call site => some site
  | _ => none

class Sited (α : Type) where
  sites : α → List Position

export Sited (sites)

instance : Sited Code := ⟨fun c => c.mentions.filterMap Mention.site?⟩
instance : Sited Declaration := ⟨fun d => d.mentions.filterMap Mention.site?⟩
instance : Sited TypeDeclaration := ⟨fun t => t.mentions.filterMap Mention.site?⟩

instance : Sited String := ⟨fun _ => []⟩
instance : Sited Nat := ⟨fun _ => []⟩
instance : Sited Parameter := ⟨fun _ => []⟩
instance : Sited Declarator := ⟨fun _ => []⟩

instance [Sited α] : Sited (List α) := ⟨List.flatMap sites⟩
instance [Sited α] : Sited (Option α) := ⟨fun o => o.elim [] sites⟩
instance [Sited α] [Sited β] : Sited (α × β) := ⟨fun p => sites p.1 ++ sites p.2⟩

section

variable [Sited α] [Sited β]

@[simp, grind =] theorem sites_string (s : String) : sites s = [] := rfl
@[simp, grind =] theorem sites_nat (n : Nat) : sites n = [] := rfl
@[simp, grind =] theorem sites_parameter (p : Parameter) : sites p = [] := rfl
@[simp, grind =] theorem sites_declarator (d : Declarator) : sites d = [] := rfl
@[simp, grind =] theorem sites_none : sites (none : Option α) = [] := rfl
@[simp, grind =] theorem sites_some (a : α) : sites (some a) = sites a := rfl
@[simp, grind =] theorem sites_pair (p : α × β) : sites p = sites p.1 ++ sites p.2 := rfl
@[simp, grind =] theorem sites_nil : sites ([] : List α) = [] := rfl

@[simp, grind =] theorem sites_cons (a : α) (as : List α) : sites (a :: as) = sites a ++ sites as :=
  List.flatMap_cons

@[simp, grind =] theorem sites_append (as bs : List α) : sites (as ++ bs) = sites as ++ sites bs :=
  List.flatMap_append

@[simp, grind =] theorem sites_toList (o : Option α) : sites o.toList = sites o := by
  cases o <;> simp

@[simp, grind =] theorem sites_getD_nil (o : Option (List α)) : sites (o.getD []) = sites o := by
  cases o <;> simp

@[simp, grind =] theorem sites_flatten (as : List (List α)) : sites as.flatten = sites as := by
  induction as <;> simp_all

@[simp, grind =] theorem sites_filterMap_id (os : List (Option α)) :
    sites (os.filterMap id) = sites os := by
  induction os with
  | nil => rfl
  | cons o os ih => cases o <;> simp_all

@[simp, grind =] theorem sites_map_snd (ps : List (Parameter × β)) :
    sites (ps.map Prod.snd) = sites ps := by
  induction ps with
  | nil => rfl
  | cons p ps ih => simp [ih]

@[simp, grind =] theorem sites_flatMap_snd (ps : List (Declarator × List β)) :
    sites (ps.flatMap Prod.snd) = sites ps := by
  induction ps with
  | nil => rfl
  | cons p ps ih => simp [ih]

end

theorem filterMap_mentionsOfAll (cs : List Code) :
    (mentionsOfAll cs).filterMap Mention.site? = sites cs := by
  induction cs with
  | nil => rfl
  | cons c cs ih =>
    rw [mentionsOfAll, List.filterMap_append, ih, sites_cons]
    rfl

theorem filterMap_mentionsOfMembers (ds : List Declaration) :
    (mentionsOfMembers ds).filterMap Mention.site? = sites ds := by
  induction ds with
  | nil => rfl
  | cons d ds ih =>
    rw [mentionsOfMembers, List.filterMap_append, ih, sites_cons]
    rfl

theorem filterMap_mentionsOfBody (body : Option (List Declaration)) :
    (mentionsOfBody body).filterMap Mention.site? = sites body := by
  cases body with
  | none => rfl
  | some ds => exact filterMap_mentionsOfMembers ds

-- ---------------------------------------------------------------------------
-- Code
-- ---------------------------------------------------------------------------

section

variable (c c₁ c₂ c₃ : Code) (cs : List Code) (body : Option (List Declaration))

@[simp, grind =] theorem sites_literal (text : String) : sites (Code.literal text) = [] := rfl

@[simp, grind =] theorem sites_name (qualifier member : String) :
    sites (Code.name qualifier member) = [] := by
  show (Code.mentions _).filterMap _ = _
  rw [Code.mentions]
  split <;> rfl

@[simp, grind =] theorem sites_this (qualifier : String) : sites (Code.this qualifier) = [] := rfl

@[simp, grind =] theorem sites_call (site : Position) (qualifier member : String) :
    sites (Code.call site qualifier member cs) = [site] ++ sites cs := by
  show (Code.mentions _).filterMap _ = _
  rw [Code.mentions, List.filterMap_cons, filterMap_mentionsOfAll]
  rfl

@[simp, grind =] theorem sites_create (type : TypeRef) :
    sites (Code.create type cs body) = sites cs ++ sites body := by
  show (Code.mentions _).filterMap _ = _
  rw [Code.mentions, List.filterMap_append, filterMap_mentionsOfAll, filterMap_mentionsOfBody]

@[simp, grind =] theorem sites_createInner :
    sites (Code.createInner cs body) = sites cs ++ sites body := by
  show (Code.mentions _).filterMap _ = _
  rw [Code.mentions, List.filterMap_append, filterMap_mentionsOfAll, filterMap_mentionsOfBody]

@[simp, grind =] theorem sites_createArray (type : TypeRef) (dimensions : Nat) :
    sites (Code.createArray type dimensions cs) = sites cs :=
  filterMap_mentionsOfAll cs

@[simp, grind =] theorem sites_cast (type : TypeRef) : sites (Code.cast type c) = sites c := rfl

@[simp, grind =] theorem sites_binary (operator : String) :
    sites (Code.binary operator c₁ c₂) = sites c₁ ++ sites c₂ :=
  List.filterMap_append

@[simp, grind =] theorem sites_conditional :
    sites (Code.conditional c₁ c₂ c₃) = sites c₁ ++ sites c₂ ++ sites c₃ := by
  show (Code.mentions _).filterMap _ = _
  rw [Code.mentions, List.filterMap_append, List.filterMap_append]
  rfl

@[simp, grind =] theorem sites_select : sites (Code.select c cs) = sites c ++ sites cs := by
  show (Code.mentions _).filterMap _ = _
  rw [Code.mentions, List.filterMap_append, filterMap_mentionsOfAll]
  rfl

@[simp, grind =] theorem sites_declare (declared : List (String × String)) :
    sites (Code.declare declared cs) = sites cs :=
  filterMap_mentionsOfAll cs

@[simp, grind =] theorem sites_localType (t : TypeDeclaration) :
    sites (Code.localType t) = sites t := rfl

@[simp, grind =] theorem sites_primary : sites (Code.primary cs) = sites cs :=
  filterMap_mentionsOfAll cs

@[simp, grind =] theorem sites_compound : sites (Code.compound cs) = sites cs :=
  filterMap_mentionsOfAll cs

end

-- ---------------------------------------------------------------------------
-- Declarations
-- ---------------------------------------------------------------------------

section

variable (annotations parameters cs : List Code) (body : Option (List Declaration))

@[simp, grind =] theorem sites_method (header : Method) :
    sites (Declaration.method header annotations parameters cs) = sites cs :=
  filterMap_mentionsOfAll cs

@[simp, grind =] theorem sites_field (head : FieldHead) :
    sites (Declaration.field head annotations cs) = sites cs :=
  filterMap_mentionsOfAll cs

@[simp, grind =] theorem sites_enumConstant (name : String) :
    sites (Declaration.enumConstant name annotations cs body) = sites cs ++ sites body := by
  show (Declaration.mentions _).filterMap _ = _
  rw [Declaration.mentions, List.filterMap_append, filterMap_mentionsOfAll,
    filterMap_mentionsOfBody]

@[simp, grind =] theorem sites_annotationMember (name : String) (returnType : TypeRef) :
    sites (Declaration.annotationMember name returnType annotations cs) = [] := rfl

@[simp, grind =] theorem sites_block : sites (Declaration.block cs) = sites cs :=
  filterMap_mentionsOfAll cs

@[simp, grind =] theorem sites_type (t : TypeDeclaration) : sites (Declaration.type t) = sites t :=
  rfl

@[simp, grind =] theorem sites_mk (head : TypeHead) (constants declarations : List Declaration) :
    sites (TypeDeclaration.mk head annotations constants declarations) =
      sites constants ++ sites declarations := by
  show (TypeDeclaration.mentions _).filterMap _ = _
  rw [TypeDeclaration.mentions, List.filterMap_append, filterMap_mentionsOfMembers,
    filterMap_mentionsOfMembers]

@[simp, grind =] theorem sites_withModifiers (t : TypeDeclaration) (modifiers : List String) :
    sites (t.withModifiers modifiers annotations) = sites t := by
  cases t
  rw [TypeDeclaration.withModifiers, sites_mk, sites_mk]

end

end CallerFirst.Java
