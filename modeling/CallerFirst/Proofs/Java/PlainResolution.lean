import CallerFirst.Proofs.Java.Bindings
import CallerFirst.Proofs.Java.Sites

/-!
# Resolution without memory

A call is resolved once, and what it was resolved to is kept. `plainLookup` and `plainInfer` resolve
it anew each time. Both agree (`infer_infers`) as long as what is kept of the calls at hand is what
plain resolution gives for them.
-/

namespace CallerFirst.Java

namespace Scopes

def plainLookup (s : Scopes) (name : String) (argumentTypes : List (Option String)) :
    Option Resolution :=
  (s.types.find? fun scope => !(scope.methodsNamed name).isEmpty).bind fun scope =>
    (Overload.choose (scope.methodsNamed name) argumentTypes).map fun m => ⟨scope.binding, m⟩

mutual
/-- `infer`, where the calls in the expression are resolved anew. -/
def plainInfer (s : Scopes) : Code → Option String
  | .literal text => Overload.literalType? text
  | .select (.literal text) _ => Overload.literalType? text
  | .name qualifier member => if qualifier.isEmpty then s.variableType? member else none
  | .cast type _ => some type.render
  | .create type _ _ => some type.render
  | .createArray type dimensions _ => some (type.render ++ TypeRef.brackets dimensions)
  | .call _ qualifier member arguments =>
    if qualifier.isEmpty then
      (s.plainLookup member (plainInferAll s arguments)).bind (·.method.returnType)
    else none
  | .this qualifier =>
    if qualifier.isEmpty then (s.types.head?.map (·.binding.name)).filter (!·.isEmpty) else none
  | .binary operator left right =>
    if truthOperators.contains operator then some "boolean"
    else if operator == "+" then
      if plainInfer s left == some "String" || plainInfer s right == some "String" then
        some "String"
      else none
    else none
  | .conditional _ whenTrue _ => plainInfer s whenTrue
  | _ => none
def plainInferAll (s : Scopes) : List Code → List (Option String)
  | [] => []
  | code :: rest => plainInfer s code :: plainInferAll s rest
end

def plainResolve (s : Scopes) (name : String) (arguments : List Code) : Option Resolution :=
  s.plainLookup name (s.plainInferAll arguments)

end Scopes

-- ---------------------------------------------------------------------------
-- What may be kept
-- ---------------------------------------------------------------------------

/-- Sites, each with what the call there may have been resolved to before it is converted, if it
may have been resolved at all. -/
abbrev Expected := List (Position × Option (Option Resolution))

namespace Expected

def Allows (known : Resolved) (e : Expected) : Prop :=
  ∀ entry ∈ e, ∀ found, known.lookup entry.1 = some found → entry.2 = some found

def Distinct (e : Expected) : Prop :=
  (e.map Prod.fst).Nodup

variable {e e₁ e₂ : Expected} {known next : Resolved}

theorem Distinct.eq (h : e.Distinct) (h₁ : (site, a) ∈ e) (h₂ : (site, b) ∈ e) : a = b :=
  congrArg Prod.snd (List.inj_on_of_nodup_map h h₁ h₂ rfl)

theorem distinct_append :
    (e₁ ++ e₂).Distinct ↔ e₁.Distinct ∧ e₂.Distinct ∧
      ∀ site ∈ e₁.map Prod.fst, site ∉ e₂.map Prod.fst := by
  rw [Distinct, List.map_append, List.nodup_append']
  exact Iff.rfl

theorem Allows.of_lookup_eq (h : e.Allows known)
    (hlookup : ∀ site ∈ e.map Prod.fst, next.lookup site = known.lookup site) : e.Allows next :=
  fun entry hentry found hfound =>
    h entry hentry found (hlookup _ (List.mem_map_of_mem hentry) ▸ hfound)

theorem allows_append : (e₁ ++ e₂).Allows known ↔ e₁.Allows known ∧ e₂.Allows known :=
  List.forall_mem_append

end Expected

def untouched [Sited α] (a : α) : Expected :=
  (sites a).map (·, none)

theorem untouched_cons [Sited α] (a : α) (as : List α) :
    untouched (a :: as) = untouched a ++ untouched as := by
  simp [untouched]

theorem untouched_mk (head : TypeHead) (annotations : List Code) (constants ds : List Declaration) :
    untouched (TypeDeclaration.mk head annotations constants ds) =
      untouched constants ++ untouched ds := by
  simp [untouched]

mutual
/-- What is expected of the calls in a piece of code. Those around which the same is visible may have
been resolved, those in the body of a class may not. -/
def Code.expects (s : Scopes) : Code → Expected
  | .literal _ | .name _ _ | .this _ => []
  | .call site _ member arguments =>
    (site, some (s.plainResolve member arguments)) :: expectsAll s arguments
  | .create _ arguments body => expectsAll s arguments ++ untouched body
  | .createInner arguments body => expectsAll s arguments ++ untouched body
  | .createArray _ _ parts => expectsAll s parts
  | .cast _ operand => operand.expects s
  | .binary _ left right => left.expects s ++ right.expects s
  | .conditional condition whenTrue whenFalse =>
    condition.expects s ++ (whenTrue.expects s ++ whenFalse.expects s)
  | .select target selectors => target.expects s ++ expectsAll s selectors
  | .declare _ parts => expectsAll s parts
  | .localType declaration => untouched declaration
  | .primary parts => expectsAll s parts
  | .compound parts => expectsAll s parts
def expectsAll (s : Scopes) : List Code → Expected
  | [] => []
  | c :: rest => c.expects s ++ expectsAll s rest
end

section

variable (s : Scopes)

theorem map_fst_untouched [Sited α] (a : α) : (untouched a).map Prod.fst = sites a := by
  simp [untouched, Function.comp_def]

mutual
theorem Code.map_fst_expects : (c : Code) → (c.expects s).map Prod.fst = sites c
  | .literal _ | .name _ _ | .this _ => by simp [Code.expects]
  | .call _ _ _ cs | .createArray _ _ cs | .declare _ cs | .primary cs | .compound cs => by
    simp [Code.expects, map_fst_expectsAll cs]
  | .create _ cs body | .createInner cs body => by
    simp [Code.expects, map_fst_expectsAll cs, map_fst_untouched]
  | .cast _ c => by simp [Code.expects, Code.map_fst_expects c]
  | .binary _ c₁ c₂ => by simp [Code.expects, Code.map_fst_expects c₁, Code.map_fst_expects c₂]
  | .conditional c₁ c₂ c₃ => by
    simp [Code.expects, Code.map_fst_expects c₁, Code.map_fst_expects c₂, Code.map_fst_expects c₃]
  | .select c cs => by simp [Code.expects, Code.map_fst_expects c, map_fst_expectsAll cs]
  | .localType t => by simp [Code.expects, map_fst_untouched]

theorem map_fst_expectsAll : (cs : List Code) → (expectsAll s cs).map Prod.fst = sites cs
  | [] => by simp [expectsAll]
  | c :: cs => by simp [expectsAll, Code.map_fst_expects c, map_fst_expectsAll cs]
end

end

-- ---------------------------------------------------------------------------
-- Types of expressions
-- ---------------------------------------------------------------------------

/-- A resolution that gives the value, keeps what is kept in order and touches no other calls. -/
def Infers (e : Expected) (x : StateM Resolved α) (a : α) : Prop :=
  ∀ known : Resolved, e.Allows known → (x.run known).1 = a ∧ e.Allows (x.run known).2 ∧
    ∀ site ∉ e.map Prod.fst, List.lookup site (x.run known).2 = known.lookup site

namespace Infers

variable {e : Expected}

theorem pure (a : α) : Infers e (Pure.pure a) a :=
  fun _ hknown => ⟨rfl, hknown, fun _ _ => rfl⟩

theorem bind {x : StateM Resolved β} {f : β → StateM Resolved α} (hx : Infers e x b)
    (hf : Infers e (f b) a) : Infers e (x >>= f) a := by
  intro known hknown
  obtain ⟨rfl, hnext, hframe⟩ := hx known hknown
  obtain ⟨hvalue, hlast, hframe'⟩ := hf _ hnext
  exact ⟨hvalue, hlast, fun site hsite => (hframe' site hsite).trans (hframe site hsite)⟩

variable {s : Scopes}

theorem lookup {types : StateM Resolved (List (Option String))} (htypes : Infers e types args)
    (name : String) : Infers e (s.lookup name types) (s.plainLookup name args) := by
  unfold Scopes.lookup Scopes.plainLookup
  cases s.types.find? fun scope => !(scope.methodsNamed name).isEmpty with
  | none => exact .pure none
  | some scope => exact htypes.bind (.pure _)

theorem lookupOnce (he : e.Distinct) {types : StateM Resolved (List (Option String))}
    (htypes : Infers e types args) (hsite : (site, some (s.plainLookup name args)) ∈ e) :
    Infers e (s.lookupOnce site name types) (s.plainLookup name args) := by
  intro known hknown
  cases hfound : known.lookup site with
  | some found =>
    rw [s.lookupOnce_known name types hfound]
    exact ⟨(Option.some.inj (hknown _ hsite found hfound)).symm, hknown, fun _ _ => rfl⟩
  | none =>
    obtain ⟨hvalue, hnext, hframe⟩ := htypes.lookup (s := s) name known hknown
    rw [s.lookupOnce_new name types hfound, hvalue]
    refine ⟨rfl, ?_, fun other hother => ?_⟩
    · rintro ⟨other, expected⟩ hentry found hlookup
      rw [List.lookup_cons] at hlookup
      split at hlookup
      · rename_i heq
        obtain rfl := eq_of_beq heq
        rw [he.eq hentry hsite, hlookup]
      · exact hnext _ hentry found hlookup
    · have hne : other ≠ site := fun heq => hother (heq ▸ List.mem_map_of_mem hsite)
      rw [List.lookup_cons, beq_false_of_ne hne]
      exact hframe other hother

end Infers

variable {e : Expected} {s : Scopes}

mutual
theorem infer_infers (he : e.Distinct) (c : Code) (hc : c.expects s ⊆ e) :
    Infers e (s.infer c) (s.plainInfer c) := by
  cases c with
  | call site qualifier member arguments =>
    rw [Code.expects, List.cons_subset] at hc
    rw [Scopes.infer, Scopes.plainInfer]
    split
    · exact ((inferAll_infers he arguments hc.2).lookupOnce he hc.1).bind (.pure _)
    · exact .pure _
  | binary operator left right =>
    rw [Code.expects, List.append_subset] at hc
    rw [Scopes.infer, Scopes.plainInfer]
    split
    · exact .pure _
    · split
      · exact (infer_infers he left hc.1).bind ((infer_infers he right hc.2).bind (.pure _))
      · exact .pure _
  | conditional condition whenTrue whenFalse =>
    rw [Code.expects, List.append_subset, List.append_subset] at hc
    rw [Scopes.infer, Scopes.plainInfer]
    exact infer_infers he whenTrue hc.2.1
  | select target selectors =>
    cases target <;> exact .pure _
  | _ => exact .pure _

theorem inferAll_infers (he : e.Distinct) (cs : List Code) (hcs : expectsAll s cs ⊆ e) :
    Infers e (s.inferAll cs) (s.plainInferAll cs) := by
  cases cs with
  | nil => exact .pure _
  | cons c cs =>
    rw [expectsAll, List.append_subset] at hcs
    rw [Scopes.inferAll, Scopes.plainInferAll]
    exact (infer_infers he c hcs.1).bind ((inferAll_infers he cs hcs.2).bind (.pure _))
end

theorem resolve_infers (he : e.Distinct)
    (hsite : (site, some (s.plainResolve name arguments)) ∈ e)
    (harguments : expectsAll s arguments ⊆ e) :
    Infers e (s.resolve site name arguments) (s.plainResolve name arguments) :=
  (inferAll_infers he arguments harguments).lookupOnce he hsite

end CallerFirst.Java
