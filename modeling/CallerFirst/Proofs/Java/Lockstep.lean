import CallerFirst.Proofs.Java.Bindings
import CallerFirst.Proofs.Java.Relocation
import CallerFirst.Proofs.Java.Unit

/-!
# Code that is converted twice

The same code is converted in two places of two texts, after other things were converted before. The
calls in it are bound alike, one by one, as long as the same is visible around it: methods, fields
and the variables that it mentions. Anonymous classes have other numbers, and these numbers are
shifted as a whole (`SameKey`).
-/

namespace CallerFirst

-- ---------------------------------------------------------------------------
-- Bindings that differ in numbers
-- ---------------------------------------------------------------------------

/-- Keys of one type, where anonymous classes are counted from `m` on in one place and from `n` on in
the other. -/
inductive SameKey (m n : Nat) : String → String → Prop
  | same (key : String) : SameKey m n key key
  | inside (h : SameKey m n key₁ key₂) (text : String) : SameKey m n (key₁ ++ text) (key₂ ++ text)
  | anonymous (h : SameKey m n key₁ key₂) (i : Nat) :
      SameKey m n (key₁ ++ "$" ++ toString (m + i)) (key₂ ++ "$" ++ toString (n + i))

structure TypeBinding.Same (m n : Nat) (t₁ t₂ : TypeBinding) : Prop where
  name : t₁.name = t₂.name
  key : SameKey m n t₁.key t₂.key
  isTopLevel : t₁.isTopLevel = t₂.isTopLevel
  isAnonymous : t₁.isAnonymous = t₂.isAnonymous

theorem TypeBinding.Same.refl (t : TypeBinding) : Same m n t t :=
  ⟨rfl, .same _, rfl, rfl⟩

structure MethodBinding.Same (m n : Nat) (b₁ b₂ : MethodBinding) : Prop where
  name : b₁.name = b₂.name
  parameterTypes : b₁.parameterTypes = b₂.parameterTypes
  declaringType : Option.Rel (TypeBinding.Same m n) b₁.declaringType b₂.declaringType

namespace Node

mutual
/-- Calls below a node with what they are bound to, nested types and anonymous classes included, in
the order in which they stand. -/
def calls : Node → List (String × Option MethodBinding)
  | .unit _ _ types => callsAll types
  | .type _ _ members => callsAll members
  | .method _ _ body => callsAll body
  | .initializer _ _ body => callsAll body
  | .field _ _ _ _ initializers => callsAll initializers
  | .enumConstant _ _ arguments body => callsAll arguments ++ callsOption body
  | .annotationMember .. => []
  | .anonymousClass _ members => callsAll members
  | .call name _ binding arguments => (name, binding) :: callsAll arguments
def callsAll : List Node → List (String × Option MethodBinding)
  | [] => []
  | n :: rest => n.calls ++ callsAll rest
def callsOption : Option Node → List (String × Option MethodBinding)
  | none => []
  | some n => n.calls
end

theorem callsAll_eq (ns : List Node) : callsAll ns = ns.flatMap calls := by
  induction ns with
  | nil => rfl
  | cons n ns ih => simp [callsAll, ih]

theorem callsAll_append (xs ys : List Node) : callsAll (xs ++ ys) = callsAll xs ++ callsAll ys := by
  simp [callsAll_eq]

/-- A call of the same name that is bound to the same method, or bound in neither place. -/
def SameCall (m n : Nat) (c₁ c₂ : String × Option MethodBinding) : Prop :=
  c₁.1 = c₂.1 ∧ Option.Rel (MethodBinding.Same m n) c₁.2 c₂.2

def SameCalls (m n : Nat) (nodes₁ nodes₂ : List Node) : Prop :=
  List.Forall₂ (SameCall m n) (callsAll nodes₁) (callsAll nodes₂)

namespace SameCalls

theorem nil : SameCalls m n [] [] :=
  List.Forall₂.nil

theorem append (h : SameCalls m n xs₁ xs₂) (h' : SameCalls m n ys₁ ys₂) :
    SameCalls m n (xs₁ ++ ys₁) (xs₂ ++ ys₂) := by
  rw [SameCalls, callsAll_append, callsAll_append]
  exact List.rel_append h h'

theorem singleton_iff :
    SameCalls m n [x₁] [x₂] ↔ List.Forall₂ (SameCall m n) x₁.calls x₂.calls := by
  simp [SameCalls, callsAll_eq]

end SameCalls

end Node

namespace Java

open Node (SameCalls)

-- ---------------------------------------------------------------------------
-- Two conversions
-- ---------------------------------------------------------------------------

namespace Convert

/-- Blocks without statements stand between the same declarations of a type in both texts. -/
def SameBlocks (source₁ source₂ : Source) (f : Position → Position) : TypeDeclaration → Prop
  | .mk head _ constants ds =>
    ∀ layout₁ layout₂, layoutOf source₁ head constants ds = .ok layout₁ →
      layoutOf source₂ (head.relocate f) (relocateMembers f constants) (relocateMembers f ds) =
        .ok layout₂ →
      layout₁.members.map (·.declaration.isNone) = layout₂.members.map (·.declaration.isNone)

end Convert

/-- Code that is converted in one text, and once more, moved by `f`, in another. The conversions
start from what was reached before. -/
structure Comparison where
  source₁ : Source
  source₂ : Source
  f : Position → Position
  mentions : List Mention
  start₁ : Progress
  start₂ : Progress
  injective : ∀ site site', .call site ∈ mentions → .call site' ∈ mentions → f site = f site' →
    site = site'
  blocks : ∀ t, .type t ∈ mentions → Convert.SameBlocks source₁ source₂ f t

namespace Comparison

variable (r : Comparison)

def SameKey : String → String → Prop :=
  CallerFirst.SameKey r.start₁.anonymous r.start₂.anonymous

def SameType : TypeBinding → TypeBinding → Prop :=
  TypeBinding.Same r.start₁.anonymous r.start₂.anonymous

structure SameResolution (found₁ found₂ : Resolution) : Prop where
  declaringType : r.SameType found₁.declaringType found₂.declaringType
  method : found₁.method = found₂.method

/-- Calls of the code are resolved alike so far, and the first conversion has resolved no others. -/
structure Known (known₁ known₂ : Resolved) : Prop where
  calls : ∀ site, .call site ∈ r.mentions →
    Option.Rel (Option.Rel r.SameResolution) (known₁.lookup site) (known₂.lookup (r.f site))
  others : ∀ site, .call site ∉ r.mentions →
    known₁.lookup site = r.start₁.resolved.lookup site

structure InStep (p₁ p₂ : Progress) : Prop where
  known : r.Known p₁.resolved p₂.resolved
  anonymous : ∃ i, p₁.anonymous = r.start₁.anonymous + i ∧ p₂.anonymous = r.start₂.anonymous + i

def Resolves (x₁ : StateM Resolved α) (x₂ : StateM Resolved β) (P : α → β → Prop) : Prop :=
  ∀ known₁ known₂ : Resolved, r.Known known₁ known₂ →
    P (x₁.run known₁).1 (x₂.run known₂).1 ∧ r.Known (x₁.run known₁).2 (x₂.run known₂).2

/-- Two conversions that stay in step and give related results, if they give any. -/
def Lockstep (x₁ : Convert α) (x₂ : Convert β) (P : α → β → Prop) : Prop :=
  ∀ p₁ p₂ a b q₁ q₂, r.InStep p₁ p₂ → x₁.run p₁ = .ok (a, q₁) → x₂.run p₂ = .ok (b, q₂) →
    P a b ∧ r.InStep q₁ q₂

variable {r}

namespace Resolves

variable {P : α → β → Prop} {Q : γ → δ → Prop}

theorem pure (h : P a b) : r.Resolves (Pure.pure a) (Pure.pure b) P :=
  fun _ _ hknown => ⟨h, hknown⟩

theorem bind {x₁ : StateM Resolved γ} {x₂ : StateM Resolved δ} {f₁ : γ → StateM Resolved α}
    {f₂ : δ → StateM Resolved β} (hx : r.Resolves x₁ x₂ Q)
    (hf : ∀ c d, Q c d → r.Resolves (f₁ c) (f₂ d) P) : r.Resolves (x₁ >>= f₁) (x₂ >>= f₂) P := by
  intro known₁ known₂ hknown
  obtain ⟨hQ, hnext⟩ := hx known₁ known₂ hknown
  exact hf _ _ hQ _ _ hnext

end Resolves

namespace Lockstep

variable {P : α → β → Prop} {Q : γ → δ → Prop}

theorem pure (h : P a b) : r.Lockstep (Pure.pure a) (Pure.pure b) P := by
  rintro p₁ p₂ a b q₁ q₂ hp ⟨⟩ ⟨⟩
  exact ⟨h, hp⟩

theorem bind {x₁ : Convert γ} {x₂ : Convert δ} {f₁ : γ → Convert α} {f₂ : δ → Convert β}
    (hx : r.Lockstep x₁ x₂ Q) (hf : ∀ c d, Q c d → r.Lockstep (f₁ c) (f₂ d) P) :
    r.Lockstep (x₁ >>= f₁) (x₂ >>= f₂) P := by
  intro p₁ p₂ a b q₁ q₂ hp h₁ h₂
  rw [StateT.run_bind, bind_eq_ok] at h₁ h₂
  obtain ⟨⟨c, next₁⟩, hc, h₁⟩ := h₁
  obtain ⟨⟨d, next₂⟩, hd, h₂⟩ := h₂
  obtain ⟨hQ, hnext⟩ := hx p₁ p₂ c d next₁ next₂ hp hc hd
  exact hf c d hQ next₁ next₂ a b q₁ q₂ hnext h₁ h₂

theorem lift (x₁ : Except Fault α) (x₂ : Except Fault β) :
    r.Lockstep (liftM x₁ : Convert α) (liftM x₂ : Convert β)
      fun a b => x₁ = .ok a ∧ x₂ = .ok b := by
  intro p₁ p₂ a b q₁ q₂ hp h₁ h₂
  cases x₁ with
  | error => cases h₁
  | ok =>
    cases x₂ with
    | error => cases h₂
    | ok =>
      cases h₁
      cases h₂
      exact ⟨⟨rfl, rfl⟩, hp⟩

theorem resolving {x₁ : StateM Resolved α} {x₂ : StateM Resolved β} (hx : r.Resolves x₁ x₂ P) :
    r.Lockstep (Convert.resolving x₁) (Convert.resolving x₂) P := by
  rintro p₁ p₂ a b q₁ q₂ hp ⟨⟩ ⟨⟩
  obtain ⟨hP, hknown⟩ := hx _ _ hp.known
  exact ⟨hP, hknown, hp.anonymous⟩

theorem nextAnonymous : r.Lockstep Convert.nextAnonymous Convert.nextAnonymous fun a b =>
    ∃ i, a = r.start₁.anonymous + i ∧ b = r.start₂.anonymous + i := by
  rintro p₁ p₂ a b q₁ q₂ hp ⟨⟩ ⟨⟩
  obtain ⟨i, h₁, h₂⟩ := hp.anonymous
  have hnext : ∃ i, p₁.anonymous + 1 = r.start₁.anonymous + i ∧
      p₂.anonymous + 1 = r.start₂.anonymous + i := ⟨i + 1, by omega, by omega⟩
  exact ⟨hnext, hp.known, hnext⟩

end Lockstep

-- ---------------------------------------------------------------------------
-- What is visible
-- ---------------------------------------------------------------------------

variable (r) in
def SameVariables (v₁ v₂ : Variables) : Prop :=
  ∀ name, .name name ∈ r.mentions → v₁.lookup name = v₂.lookup name

variable (r) in
structure SameScope (s₁ s₂ : Scope) : Prop where
  binding : r.SameType s₁.binding s₂.binding
  methods : ∀ name, s₁.methodsNamed name = s₂.methodsNamed name
  fields : s₁.fields = s₂.fields

variable (r) in
structure SameScopes (s₁ s₂ : Scopes) : Prop where
  types : List.Forall₂ r.SameScope s₁.types s₂.types
  locals : r.SameVariables s₁.locals s₂.locals

variable {s₁ s₂ : Scopes}

theorem SameVariables.declare (h : r.SameVariables v₁ v₂) (declared : Variables) :
    r.SameVariables (declared ++ v₁) (declared ++ v₂) := by
  intro name hname
  rw [List.lookup_append, List.lookup_append, h name hname]

theorem SameScopes.withLocals (h : r.SameScopes s₁ s₂) (hv : r.SameVariables v₁ v₂) :
    r.SameScopes { s₁ with locals := v₁ } { s₂ with locals := v₂ } :=
  ⟨h.types, hv⟩

theorem SameScopes.ownerKey (h : r.SameScopes s₁ s₂) :
    r.SameKey (Convert.ownerKey s₁) (Convert.ownerKey s₂) := by
  have htypes := h.types
  unfold Convert.ownerKey
  revert htypes
  generalize s₁.types = types₁, s₂.types = types₂
  rintro ⟨⟩
  · exact .same _
  · rename_i hscope _
    exact hscope.binding.key

theorem SameScopes.named (h : r.SameScopes s₁ s₂) (separator name : String) :
    r.SameType ⟨name, Convert.ownerKey s₁ ++ separator ++ name, false, false⟩
      ⟨name, Convert.ownerKey s₂ ++ separator ++ name, false, false⟩ :=
  ⟨rfl, (h.ownerKey.inside separator).inside name, rfl, rfl⟩

theorem SameScopes.numbered (h : r.SameScopes s₁ s₂) (i : Nat) :
    r.SameType ⟨"", Convert.ownerKey s₁ ++ "$" ++ toString (r.start₁.anonymous + i), false, true⟩
      ⟨"", Convert.ownerKey s₂ ++ "$" ++ toString (r.start₂.anonymous + i), false, true⟩ :=
  ⟨rfl, h.ownerKey.anonymous i, rfl, rfl⟩

theorem methodOf?_relocate (f : Position → Position) (d : Declaration) :
    Convert.methodOf? (d.relocate f) = Convert.methodOf? d := by
  cases d <;> rw [Declaration.relocate] <;> rfl

theorem fieldsOf_relocate (f : Position → Position) (d : Declaration) :
    Convert.fieldsOf (d.relocate f) = Convert.fieldsOf d := by
  cases d <;> rw [Declaration.relocate] <;> rfl

theorem scopeOf_relocate (f : Position → Position) (binding : TypeBinding) (ds : List Declaration) :
    Convert.scopeOf binding (relocateMembers f ds) = Convert.scopeOf binding ds := by
  simp only [Convert.scopeOf, relocateMembers_eq, List.filterMap_map, ← List.map_reverse,
    List.flatMap_map, Function.comp_def, methodOf?_relocate, fieldsOf_relocate]

theorem sameScope_scopeOf (h : r.SameType b₁ b₂) (ds : List Declaration) :
    r.SameScope (Convert.scopeOf b₁ ds) (Convert.scopeOf b₂ (relocateMembers r.f ds)) := by
  rw [scopeOf_relocate]
  exact ⟨h, fun _ => rfl, rfl⟩

theorem SameScopes.enter (h : r.SameScopes s₁ s₂) (hb : r.SameType b₁ b₂)
    (ds : List Declaration) :
    r.SameScopes { s₁ with types := Convert.scopeOf b₁ ds :: s₁.types }
      { s₂ with types := Convert.scopeOf b₂ (relocateMembers r.f ds) :: s₂.types } :=
  ⟨.cons (sameScope_scopeOf hb ds) h.types, h.locals⟩

-- ---------------------------------------------------------------------------
-- Resolutions
-- ---------------------------------------------------------------------------

theorem rel_find? {R : α → β → Prop} {p : α → Bool} {q : β → Bool} (h : List.Forall₂ R xs ys)
    (hpq : ∀ x y, R x y → p x = q y) : Option.Rel R (xs.find? p) (ys.find? q) := by
  induction h with
  | nil => exact .none
  | cons hxy _ ih =>
    rw [List.find?_cons, List.find?_cons, hpq _ _ hxy]
    split
    · exact .some hxy
    · exact ih

theorem findSome?_congr {R : α → α → Prop} {p : α → Option β} (h : List.Forall₂ R xs ys)
    (hp : ∀ x y, R x y → p x = p y) : xs.findSome? p = ys.findSome? p := by
  induction h with
  | nil => rfl
  | cons hxy _ ih => rw [List.findSome?_cons, List.findSome?_cons, hp _ _ hxy, ih]

theorem SameScopes.variableType? (h : r.SameScopes s₁ s₂) (hname : .name name ∈ r.mentions) :
    s₁.variableType? name = s₂.variableType? name := by
  have hfields := findSome?_congr (p := fun scope : Scope => scope.fields.lookup name) h.types
    fun scope₁ scope₂ hscope => by rw [hscope.fields]
  rw [Scopes.variableType?, Scopes.variableType?, h.locals name hname, hfields]

theorem lookup_resolves (hs : r.SameScopes s₁ s₂)
    {types₁ types₂ : StateM Resolved (List (Option String))} (htypes : r.Resolves types₁ types₂ Eq)
    (name : String) :
    r.Resolves (s₁.lookup name types₁) (s₂.lookup name types₂) (Option.Rel r.SameResolution) := by
  have hfind := rel_find? (p := fun scope => !(scope.methodsNamed name).isEmpty)
    (q := fun scope => !(scope.methodsNamed name).isEmpty) hs.types
    fun scope₁ scope₂ hscope => by rw [hscope.methods]
  unfold Scopes.lookup
  revert hfind
  generalize s₁.types.find? _ = found₁, s₂.types.find? _ = found₂
  rintro (⟨⟨hbinding, hmethods, -⟩⟩ | _)
  · refine htypes.bind fun args _ hargs => .pure ?_
    subst hargs
    rw [hmethods]
    cases Overload.choose _ args with
    | none => exact .none
    | some m => exact .some ⟨hbinding, rfl⟩
  · exact .pure .none

theorem Known.cons (h : r.Known known₁ known₂) (hsite : .call site ∈ r.mentions)
    (hfound : Option.Rel r.SameResolution found₁ found₂) :
    r.Known ((site, found₁) :: known₁) ((r.f site, found₂) :: known₂) := by
  refine ⟨fun other hother => ?_, fun other hother => ?_⟩
  · rw [List.lookup_cons, List.lookup_cons]
    by_cases heq : other = site
    · subst heq
      simpa using hfound
    · have hne : r.f other ≠ r.f site := fun h => heq (r.injective _ _ hother hsite h)
      rw [beq_false_of_ne heq, beq_false_of_ne hne]
      exact h.calls other hother
  · have hne : other ≠ site := fun heq => hother (heq ▸ hsite)
    rw [List.lookup_cons, beq_false_of_ne hne]
    exact h.others other hother

theorem lookupOnce_resolves (hs : r.SameScopes s₁ s₂)
    {types₁ types₂ : StateM Resolved (List (Option String))} (htypes : r.Resolves types₁ types₂ Eq)
    (hsite : .call site ∈ r.mentions) (name : String) :
    r.Resolves (s₁.lookupOnce site name types₁) (s₂.lookupOnce (r.f site) name types₂)
      (Option.Rel r.SameResolution) := by
  intro known₁ known₂ hknown
  have hfound := hknown.calls site hsite
  cases h₁ : known₁.lookup site with
  | some found₁ =>
    cases h₂ : known₂.lookup (r.f site) with
    | none => simp [h₁, h₂] at hfound
    | some found₂ =>
      rw [h₁, h₂] at hfound
      rw [s₁.lookupOnce_known name types₁ h₁, s₂.lookupOnce_known name types₂ h₂]
      exact ⟨by simpa using hfound, hknown⟩
  | none =>
    cases h₂ : known₂.lookup (r.f site) with
    | some => simp [h₁, h₂] at hfound
    | none =>
      obtain ⟨hfound, hnext⟩ := lookup_resolves hs htypes name known₁ known₂ hknown
      rw [s₁.lookupOnce_new name types₁ h₁, s₂.lookupOnce_new name types₂ h₂]
      exact ⟨hfound, hnext.cons hsite hfound⟩

mutual
theorem infer_resolves (hs : r.SameScopes s₁ s₂) (c : Code) (hc : c.mentions ⊆ r.mentions) :
    r.Resolves (s₁.infer c) (s₂.infer (c.relocate r.f)) Eq := by
  cases c with
  | name qualifier member =>
    rw [Code.relocate, Scopes.infer, Scopes.infer]
    refine .pure ?_
    split
    · rename_i hplain
      exact hs.variableType? (hc (by simp [Code.mentions, hplain]))
    · rfl
  | call site qualifier member arguments =>
    rw [Code.mentions, List.cons_subset] at hc
    rw [Code.relocate, Scopes.infer, Scopes.infer]
    split
    · refine (lookupOnce_resolves hs (inferAll_resolves hs arguments hc.2) hc.1 member).bind
        fun found₁ found₂ hfound => .pure ?_
      cases hfound with
      | none => rfl
      | some h => simp [h.method]
    · exact .pure rfl
  | this qualifier =>
    rw [Code.relocate, Scopes.infer, Scopes.infer]
    refine .pure ?_
    have htypes := hs.types
    revert htypes
    generalize s₁.types = types₁, s₂.types = types₂
    rintro (_ | ⟨hscope, -⟩)
    · rfl
    · simp [hscope.binding.name]
  | binary operator left right =>
    rw [Code.mentions, List.append_subset] at hc
    rw [Code.relocate, Scopes.infer, Scopes.infer]
    split
    · exact .pure rfl
    · split
      · refine (infer_resolves hs left hc.1).bind fun _ _ hleft => ?_
        refine (infer_resolves hs right hc.2).bind fun _ _ hright => .pure ?_
        rw [hleft, hright]
      · exact .pure rfl
  | conditional condition whenTrue whenFalse =>
    rw [Code.mentions, List.append_subset, List.append_subset] at hc
    rw [Code.relocate, Scopes.infer, Scopes.infer]
    exact infer_resolves hs whenTrue hc.1.2
  | select target selectors =>
    cases target <;> exact .pure rfl
  | _ => exact .pure rfl

theorem inferAll_resolves (hs : r.SameScopes s₁ s₂) (cs : List Code)
    (hcs : mentionsOfAll cs ⊆ r.mentions) :
    r.Resolves (s₁.inferAll cs) (s₂.inferAll (relocateAll r.f cs)) Eq := by
  cases cs with
  | nil => exact .pure rfl
  | cons c cs =>
    rw [mentionsOfAll, List.append_subset] at hcs
    rw [relocateAll, Scopes.inferAll, Scopes.inferAll]
    refine (infer_resolves hs c hcs.1).bind fun _ _ htype => ?_
    refine (inferAll_resolves hs cs hcs.2).bind fun _ _ htypes => .pure ?_
    rw [htype, htypes]
end

-- ---------------------------------------------------------------------------
-- Conversions
-- ---------------------------------------------------------------------------

open CallerFirst.Java.Convert (code codes selectors anonymousClass typeNode membersFrom member
  emptyBlock splitBlocks)

variable (r) in
def SameMethod : MethodBinding → MethodBinding → Prop :=
  MethodBinding.Same r.start₁.anonymous r.start₂.anonymous

variable (r) in
def SameCalls : List Node → List Node → Prop :=
  Node.SameCalls r.start₁.anonymous r.start₂.anonymous

theorem SameCalls.append (h : r.SameCalls xs₁ xs₂) (h' : r.SameCalls ys₁ ys₂) :
    r.SameCalls (xs₁ ++ ys₁) (xs₂ ++ ys₂) :=
  Node.SameCalls.append h h'

theorem sameCalls_singleton {x₁ x₂ : Node} (h : r.SameCalls x₁.children x₂.children)
    (h₁ : x₁.calls = Node.callsAll x₁.children) (h₂ : x₂.calls = Node.callsAll x₂.children) :
    r.SameCalls [x₁] [x₂] :=
  Node.SameCalls.singleton_iff.mpr (by rwa [h₁, h₂])

theorem sameCalls_call {b₁ b₂ : Option MethodBinding} (hb : Option.Rel r.SameMethod b₁ b₂)
    (h : r.SameCalls xs₁ xs₂) (name : String) (q₁ q₂ : Bool) :
    r.SameCalls [.call name q₁ b₁ xs₁] [.call name q₂ b₂ xs₂] :=
  Node.SameCalls.singleton_iff.mpr (.cons ⟨rfl, hb⟩ h)

theorem callsAll_emptyBlocks (pairs : List (Pair Declaration)) (index : Nat) :
    Node.callsAll (pairs.mapIdx fun i pair => emptyBlock (index + i) pair) = [] := by
  rw [Node.callsAll_eq, List.flatMap_eq_nil_iff]
  intro n hn
  obtain ⟨i, hi, rfl⟩ := List.mem_mapIdx.mp hn
  rfl

theorem sameCalls_emptyBlocks (pairs₁ pairs₂ : List (Pair Declaration)) (index₁ index₂ : Nat) :
    r.SameCalls (pairs₁.mapIdx fun i pair => emptyBlock (index₁ + i) pair)
      (pairs₂.mapIdx fun i pair => emptyBlock (index₂ + i) pair) := by
  rw [SameCalls, Node.SameCalls, callsAll_emptyBlocks, callsAll_emptyBlocks]
  exact .nil

theorem Lockstep.bindCall (hs : r.SameScopes s₁ s₂) (hsite : .call site ∈ r.mentions)
    (name : String) (arguments : List Code) (hargs : mentionsOfAll arguments ⊆ r.mentions) :
    r.Lockstep (Convert.bindCall s₁ site name arguments)
      (Convert.bindCall s₂ (r.f site) name (relocateAll r.f arguments))
      (Option.Rel r.SameMethod) := by
  refine .bind (.resolving (lookupOnce_resolves hs (inferAll_resolves hs arguments hargs) hsite
    name)) fun found₁ found₂ hfound => .pure ?_
  cases hfound with
  | none => exact .none
  | some h =>
    rw [Option.map_some, Option.map_some, h.method]
    exact .some ⟨rfl, rfl, .some h.declaringType⟩

theorem Lockstep.bindingIf (hs : r.SameScopes s₁ s₂) (hsite : .call site ∈ r.mentions)
    (hargs : mentionsOfAll arguments ⊆ r.mentions) {f₁ : Option MethodBinding → Convert α}
    {f₂ : Option MethodBinding → Convert β} {P : α → β → Prop}
    (hf : ∀ b₁ b₂, Option.Rel r.SameMethod b₁ b₂ → r.Lockstep (f₁ b₁) (f₂ b₂) P) :
    r.Lockstep
      (if isPlain = true then Convert.bindCall s₁ site name arguments >>= f₁
        else Pure.pure none >>= f₁)
      (if isPlain = true then
          Convert.bindCall s₂ (r.f site) name (relocateAll r.f arguments) >>= f₂
        else Pure.pure none >>= f₂) P := by
  split
  · exact .bind (.bindCall hs hsite name arguments hargs) hf
  · exact .bind (.pure .none) hf

theorem code_select (source : Source) (s : Scopes) {target : Code}
    (h : ∀ qualifier, target ≠ .this qualifier) (selectorList : List Code) :
    code source s (.select target selectorList) = do
      return (← code source s target) ++ (← selectors source s false selectorList) := by
  rw [code]
  exact h

theorem selectors_cons (source : Source) (s : Scopes) (behindThis : Bool) {c : Code}
    (h : ∀ site qualifier member arguments, c ≠ .call site qualifier member arguments)
    (cs : List Code) :
    selectors source s behindThis (c :: cs) = do
      return (← code source s c) ++ (← selectors source s false cs) := by
  rw [selectors]
  exact h

theorem map_splitBlocks (h : pairs₁.map (·.declaration.isNone) = pairs₂.map (·.declaration.isNone)) :
    (splitBlocks pairs₁).1.isEmpty = (splitBlocks pairs₂).1.isEmpty ∧
      (splitBlocks pairs₁).2.tail.map (·.declaration.isNone) =
        (splitBlocks pairs₂).2.tail.map (·.declaration.isNone) := by
  have hsplit (pairs : List (Pair Declaration)) :
      (splitBlocks pairs).1.map (·.declaration.isNone) =
          (pairs.map (·.declaration.isNone)).takeWhile id ∧
        (splitBlocks pairs).2.map (·.declaration.isNone) =
          (pairs.map (·.declaration.isNone)).dropWhile id := by
    simp only [splitBlocks, List.span_eq_takeWhile_dropWhile, List.takeWhile_map, List.dropWhile_map,
      Function.comp_def, id]
    exact ⟨trivial, trivial⟩
  obtain ⟨hblocks₁, hrest₁⟩ := hsplit pairs₁
  obtain ⟨hblocks₂, hrest₂⟩ := hsplit pairs₂
  rw [h] at hblocks₁ hrest₁
  constructor
  · simpa using congrArg List.isEmpty (hblocks₁.trans hblocks₂.symm)
  · rw [List.map_tail, List.map_tail, hrest₁, hrest₂]

theorem map_declaration_eq {pairs : List (Pair Declaration)}
    (h : ∀ pair ∈ pairs, pair.declaration.isSome) :
    pairs.map (·.declaration) = (pairs.filterMap (·.declaration)).map some := by
  induction pairs with
  | nil => rfl
  | cons pair pairs ih =>
    obtain ⟨hpair, hpairs⟩ := List.forall_mem_cons.mp h
    obtain ⟨d, hd⟩ := Option.isSome_iff_exists.mp hpair
    rw [List.map_cons, ih hpairs, List.filterMap_cons_some hd, List.map_cons, hd]

theorem map_isNone_constants (h : Convert.LaidOut source head constants ds layout body) :
    layout.constants.map (·.declaration.isNone) = List.replicate constants.length false := by
  have hsome : ∀ pair ∈ layout.constants, pair.declaration.isSome := fun pair hpair => by
    obtain ⟨d, -, hd⟩ := h.declared pair hpair
    simp [hd]
  have hmap := map_declaration_eq hsome
  rw [h.constantLines.declarations] at hmap
  simpa [Function.comp_def] using congrArg (List.map Option.isNone) hmap

mutual
theorem code_lockstep {s₁ s₂ : Scopes} (hs : r.SameScopes s₁ s₂) (c : Code)
    (hc : c.mentions ⊆ r.mentions) :
    r.Lockstep (code r.source₁ s₁ c) (code r.source₂ s₂ (c.relocate r.f)) r.SameCalls := by
  cases c with
  | literal | name | this =>
    rw [Code.relocate, code, code]
    exact .pure .nil
  | call site qualifier member arguments =>
    rw [Code.mentions, List.cons_subset] at hc
    rw [Code.relocate, code, code]
    refine .bindingIf hs hc.1 hc.2 fun b₁ b₂ hb => ?_
    exact .bind (codes_lockstep hs arguments hc.2) fun xs₁ xs₂ hxs =>
      .pure (sameCalls_call hb hxs member _ _)
  | create type arguments body =>
    rw [Code.mentions, List.append_subset] at hc
    rw [Code.relocate, code, code]
    exact .bind (codes_lockstep hs arguments hc.1) fun xs₁ xs₂ hxs =>
      .bind (anonymousClass_lockstep hs body hc.2) fun ys₁ ys₂ hys => .pure (hxs.append hys.1)
  | createInner arguments body =>
    rw [Code.mentions, List.append_subset] at hc
    rw [Code.relocate, code, code]
    exact .bind (codes_lockstep hs arguments hc.1) fun xs₁ xs₂ hxs =>
      .bind (anonymousClass_lockstep hs body hc.2) fun ys₁ ys₂ hys => .pure (hxs.append hys.1)
  | createArray type dimensions parts =>
    rw [Code.mentions] at hc
    rw [Code.relocate, code, code]
    exact codes_lockstep hs parts hc
  | cast type operand =>
    rw [Code.mentions] at hc
    rw [Code.relocate, code, code]
    exact code_lockstep hs operand hc
  | binary operator left right =>
    rw [Code.mentions, List.append_subset] at hc
    rw [Code.relocate, code, code]
    exact .bind (code_lockstep hs left hc.1) fun xs₁ xs₂ hxs =>
      .bind (code_lockstep hs right hc.2) fun ys₁ ys₂ hys => .pure (hxs.append hys)
  | conditional condition whenTrue whenFalse =>
    rw [Code.mentions, List.append_subset, List.append_subset] at hc
    rw [Code.relocate, code, code]
    exact .bind (code_lockstep hs condition hc.1.1) fun xs₁ xs₂ hxs =>
      .bind (code_lockstep hs whenTrue hc.1.2) fun ys₁ ys₂ hys =>
      .bind (code_lockstep hs whenFalse hc.2) fun zs₁ zs₂ hzs =>
      .pure ((hxs.append hys).append hzs)
  | select target selectorList =>
    rw [Code.mentions, List.append_subset] at hc
    by_cases hthis : ∃ qualifier, target = .this qualifier
    · obtain ⟨qualifier, rfl⟩ := hthis
      rw [Code.relocate, Code.relocate, code, code]
      exact selectors_lockstep hs _ selectorList hc.2
    · rw [not_exists] at hthis
      rw [Code.relocate, code_select _ _ hthis, code_select _ _ (Code.relocate_ne_this r.f hthis)]
      exact .bind (code_lockstep hs target hc.1) fun xs₁ xs₂ hxs =>
        .bind (selectors_lockstep hs false selectorList hc.2) fun ys₁ ys₂ hys =>
        .pure (hxs.append hys)
  | declare declared parts =>
    rw [Code.mentions] at hc
    rw [Code.relocate, code, code]
    exact codes_lockstep hs parts hc
  | localType t =>
    rw [Code.mentions, List.cons_subset] at hc
    rw [Code.relocate, code, code, TypeDeclaration.name_relocate]
    exact .bind (typeNode_lockstep hs (hs.named "$local$" t.head.name) 0 0 none none t hc.1 hc.2)
      fun n₁ n₂ hn => .pure hn
  | primary parts =>
    rw [Code.mentions] at hc
    rw [Code.relocate, code, code]
    exact codes_lockstep hs parts hc
  | compound parts =>
    rw [Code.mentions] at hc
    rw [Code.relocate, code, code]
    exact codes_lockstep hs parts hc

theorem codes_lockstep {s₁ s₂ : Scopes} (hs : r.SameScopes s₁ s₂) (cs : List Code)
    (hcs : mentionsOfAll cs ⊆ r.mentions) :
    r.Lockstep (codes r.source₁ s₁ cs) (codes r.source₂ s₂ (relocateAll r.f cs)) r.SameCalls := by
  cases cs with
  | nil =>
    rw [relocateAll, codes, codes]
    exact .pure .nil
  | cons c cs =>
    rw [mentionsOfAll, List.append_subset] at hcs
    rw [relocateAll, codes, codes]
    exact .bind (code_lockstep hs c hcs.1) fun xs₁ xs₂ hxs =>
      .bind (codes_lockstep hs cs hcs.2) fun ys₁ ys₂ hys => .pure (hxs.append hys)

theorem selectors_lockstep {s₁ s₂ : Scopes} (hs : r.SameScopes s₁ s₂) (behindThis : Bool)
    (cs : List Code) (hcs : mentionsOfAll cs ⊆ r.mentions) :
    r.Lockstep (selectors r.source₁ s₁ behindThis cs)
      (selectors r.source₂ s₂ behindThis (relocateAll r.f cs)) r.SameCalls := by
  cases cs with
  | nil =>
    rw [relocateAll, selectors, selectors]
    exact .pure .nil
  | cons c cs =>
    rw [mentionsOfAll, List.append_subset] at hcs
    by_cases hcall : ∃ site qualifier member arguments, c = .call site qualifier member arguments
    · cases c with
      | call site qualifier member arguments =>
        obtain ⟨hc, hcs⟩ := hcs
        rw [Code.mentions, List.cons_subset] at hc
        rw [relocateAll, Code.relocate, selectors, selectors]
        refine .bindingIf hs hc.1 hc.2 fun b₁ b₂ hb => ?_
        exact .bind (codes_lockstep hs arguments hc.2) fun xs₁ xs₂ hxs =>
          .bind (selectors_lockstep hs false cs hcs) fun ys₁ ys₂ hys =>
          .pure ((sameCalls_call hb hxs member _ _).append hys)
      | _ => simp at hcall
    · simp only [not_exists] at hcall
      rw [relocateAll, selectors_cons _ _ _ hcall,
        selectors_cons _ _ _ (Code.relocate_ne_call r.f hcall)]
      exact .bind (code_lockstep hs c hcs.1) fun xs₁ xs₂ hxs =>
        .bind (selectors_lockstep hs false cs hcs.2) fun ys₁ ys₂ hys => .pure (hxs.append hys)

theorem anonymousClass_lockstep {s₁ s₂ : Scopes} (hs : r.SameScopes s₁ s₂)
    (body : Option (List Declaration)) (hbody : mentionsOfBody body ⊆ r.mentions) :
    r.Lockstep (anonymousClass r.source₁ s₁ body)
      (anonymousClass r.source₂ s₂ (relocateBody r.f body))
      fun xs₁ xs₂ => r.SameCalls xs₁ xs₂ ∧ r.SameCalls xs₁.head?.toList xs₂.head?.toList := by
  cases body with
  | none =>
    rw [relocateBody, anonymousClass, anonymousClass]
    exact .pure ⟨.nil, .nil⟩
  | some ds =>
    rw [mentionsOfBody] at hbody
    rw [relocateBody, anonymousClass, anonymousClass]
    refine .bind .nextAnonymous fun number₁ number₂ hnumbers => ?_
    obtain ⟨i, rfl, rfl⟩ := hnumbers
    have hinner := hs.enter (hs.numbered i) ds
    have hpairs : (Pair.unplaced ds).map (·.declaration.isNone) =
        (Pair.unplaced (relocateMembers r.f ds)).map (·.declaration.isNone) := by
      simp [Pair.unplaced, relocateMembers_eq]
    refine .bind (membersFrom_lockstep hinner hs.locals hs.locals 0 0 hpairs ds hbody)
      fun xs₁ xs₂ hxs => .pure ?_
    exact ⟨sameCalls_singleton hxs rfl rfl, sameCalls_singleton hxs rfl rfl⟩

theorem typeNode_lockstep {s₁ s₂ : Scopes} (hs : r.SameScopes s₁ s₂) (hb : r.SameType b₁ b₂)
    (index₁ index₂ : Nat) (span₁ span₂ : Option (Nat × Nat)) (t : TypeDeclaration)
    (ht : .type t ∈ r.mentions) (hinside : t.mentions ⊆ r.mentions) :
    r.Lockstep (typeNode r.source₁ s₁ index₁ span₁ b₁ t)
      (typeNode r.source₂ s₂ index₂ span₂ b₂ (t.relocate r.f))
      fun n₁ n₂ => r.SameCalls [n₁] [n₂] := by
  have hblocks := r.blocks t ht
  obtain ⟨head, annotations, constants, ds⟩ := t
  rw [TypeDeclaration.mentions, List.append_subset] at hinside
  rw [TypeDeclaration.relocate, typeNode, typeNode]
  refine .bind (.lift _ _) fun layout₁ layout₂ hlayouts => ?_
  obtain ⟨hlayout₁, hlayout₂⟩ := hlayouts
  obtain ⟨body₁, hlaid₁⟩ := Convert.layoutOf_ok hlayout₁
  obtain ⟨body₂, hlaid₂⟩ := Convert.layoutOf_ok hlayout₂
  have hconstants : layout₁.constants.map (·.declaration.isNone) =
      layout₂.constants.map (·.declaration.isNone) := by
    rw [map_isNone_constants hlaid₁, map_isNone_constants hlaid₂, relocateMembers_eq,
      List.length_map]
  have hinner := hs.enter hb ds
  refine .bind (membersFrom_lockstep hinner hs.locals hs.locals _ _ hconstants constants hinside.1)
    fun xs₁ xs₂ hxs => ?_
  refine .bind (membersFrom_lockstep hinner hs.locals hs.locals _ _
    (hblocks layout₁ layout₂ hlayout₁ hlayout₂) ds hinside.2) fun ys₁ ys₂ hys => .pure ?_
  exact sameCalls_singleton (hxs.append hys) rfl rfl

theorem membersFrom_lockstep {s₁ s₂ : Scopes} (hs : r.SameScopes s₁ s₂)
    (houter : r.SameVariables outer₁ outer₂) (hcurrent : r.SameVariables current₁ current₂)
    (index₁ index₂ : Nat)
    (hpairs : pairs₁.map (·.declaration.isNone) = pairs₂.map (·.declaration.isNone))
    (ds : List Declaration) (hds : mentionsOfMembers ds ⊆ r.mentions) :
    r.Lockstep (membersFrom r.source₁ s₁ outer₁ index₁ pairs₁ current₁ ds)
      (membersFrom r.source₂ s₂ outer₂ index₂ pairs₂ current₂ (relocateMembers r.f ds))
      r.SameCalls := by
  cases ds with
  | nil =>
    rw [relocateMembers, membersFrom, membersFrom]
    exact .pure (sameCalls_emptyBlocks _ _ _ _)
  | cons d ds =>
    rw [mentionsOfMembers, List.append_subset] at hds
    rw [relocateMembers, membersFrom, membersFrom]
    obtain ⟨hempty, hrest⟩ := map_splitBlocks hpairs
    have hnext : r.SameVariables
        (if (splitBlocks pairs₁).1.isEmpty = true then current₁ else outer₁)
        (if (splitBlocks pairs₂).1.isEmpty = true then current₂ else outer₂) := by
      rw [hempty]
      split
      · exact hcurrent
      · exact houter
    refine .bind (member_lockstep hs houter _ _ _ _ d (fun _ _ => hnext) hds.1)
      fun found₁ found₂ hfound => ?_
    refine .bind (membersFrom_lockstep hs houter hfound.2 _ _ hrest ds hds.2)
      fun xs₁ xs₂ hxs => .pure ?_
    exact (sameCalls_emptyBlocks _ _ _ _).append (hfound.1.append hxs)

theorem member_lockstep {s₁ s₂ : Scopes} (hs : r.SameScopes s₁ s₂)
    (houter : r.SameVariables outer₁ outer₂) (index₁ index₂ : Nat)
    (pair₁ pair₂ : Pair Declaration) (d : Declaration)
    (hcurrent : ∀ t, d = .type t → r.SameVariables current₁ current₂)
    (hd : d.mentions ⊆ r.mentions) :
    r.Lockstep (member r.source₁ s₁ outer₁ index₁ pair₁ current₁ d)
      (member r.source₂ s₂ outer₂ index₂ pair₂ current₂ (d.relocate r.f))
      fun found₁ found₂ =>
        r.SameCalls [found₁.1] [found₂.1] ∧ r.SameVariables found₁.2 found₂.2 := by
  cases d with
  | method header annotations parameters body =>
    rw [Declaration.mentions] at hd
    rw [Declaration.relocate, member, member]
    simp only [localsOfAll_relocate]
    have hlocals := houter.declare
      (localsOfAll annotations ++ localsOfAll parameters ++ localsOfAll body)
    exact .bind (codes_lockstep (hs.withLocals hlocals) body hd) fun xs₁ xs₂ hxs =>
      .pure ⟨sameCalls_singleton hxs rfl rfl, hlocals⟩
  | block statements =>
    rw [Declaration.mentions] at hd
    rw [Declaration.relocate, member, member]
    simp only [localsOfAll_relocate]
    have hlocals := houter.declare (localsOfAll statements)
    exact .bind (codes_lockstep (hs.withLocals hlocals) statements hd) fun xs₁ xs₂ hxs =>
      .pure ⟨sameCalls_singleton hxs rfl rfl, hlocals⟩
  | field head annotations initializers =>
    rw [Declaration.mentions] at hd
    rw [Declaration.relocate, member, member]
    exact .bind (codes_lockstep (hs.withLocals houter) initializers hd) fun xs₁ xs₂ hxs =>
      .pure ⟨sameCalls_singleton hxs rfl rfl, houter⟩
  | enumConstant name annotations arguments body =>
    rw [Declaration.mentions, List.append_subset] at hd
    rw [Declaration.relocate, member, member]
    refine .bind (codes_lockstep (hs.withLocals houter) arguments hd.1) fun xs₁ xs₂ hxs => ?_
    refine .bind (anonymousClass_lockstep (hs.withLocals houter) body hd.2)
      fun ys₁ ys₂ hys => .pure ⟨?_, houter⟩
    have hbody (ys : List Node) : Node.callsOption ys.head? = Node.callsAll ys.head?.toList := by
      cases ys <;> simp [Node.callsOption, Node.callsAll]
    refine sameCalls_singleton (hxs.append hys.2) ?_ ?_ <;>
      rw [Node.calls, Node.children, Node.callsAll_append, hbody]
  | annotationMember name returnType =>
    rw [Declaration.relocate, member, member]
    exact .pure ⟨sameCalls_singleton .nil rfl rfl, houter⟩
  | type t =>
    rw [Declaration.mentions, List.cons_subset] at hd
    rw [Declaration.relocate, member, member, TypeDeclaration.name_relocate]
    have hlocals := hcurrent t rfl
    exact .bind (typeNode_lockstep (hs.withLocals hlocals) (hs.named "$" t.head.name) _ _ _ _ t
      hd.1 hd.2) fun n₁ n₂ hn => .pure ⟨hn, hlocals⟩
end

end Comparison

end Java

end CallerFirst
