import CallerFirst.Proofs.Java.Bindings
import Mathlib.Data.Prod.Lex
import Mathlib.Algebra.Ring.Int.Defs

/-!
# The overload that a call is bound to

`choose_cases`: of the methods that take as many arguments as a call has, the first is chosen of those
with the greatest value; that is the sum of the scores of the arguments, and of equal sums a fixed
number of arguments counts more. `resolve_chooses`: the candidates are those of the innermost type that
has one of the name, and types around it are not asked.
-/

namespace CallerFirst.Java

namespace Overload

variable {m n : Method} {types arguments : List (Option String)} {candidates done : List Method}

-- ---------------------------------------------------------------------------
-- Scores
-- ---------------------------------------------------------------------------

/-- The method takes a number of arguments: as many as it has parameters, or any number from one less
on. -/
def Takes (m : Method) (count : Nat) : Prop :=
  if hasVarargs m then m.parameters.length ≤ count + 1 else count = m.parameters.length

instance : Decidable (Takes m count) :=
  inferInstanceAs (Decidable (if hasVarargs m then _ else _))

def scoreAt (m : Method) (count i : Nat) (type : Option String) : Int :=
  if hasVarargs m && m.parameters.length ≤ i + 1 then
    varargsScore (count == m.parameters.length) type
      (elementType ((m.parameters.getLast?.map (·.typeText)).getD ""))
  else argumentScore type ((m.parameters[i]?.map (·.typeText)).getD "")

/-- What a method is worth for a call: the sum of the scores, then whether the number of its arguments
is fixed. -/
def value (m : Method) (types : List (Option String)) : Int × Bool :=
  ((types.mapIdx (scoreAt m types.length)).sum, !hasVarargs m)

theorem fixedScore_eq_sum (types : List (Option String)) (parameters : List Parameter) :
    fixedScore types parameters =
      (List.zipWith (fun type (p : Parameter) => argumentScore type p.typeText) types
        parameters).sum := by
  induction types generalizing parameters with
  | nil => rfl
  | cons type types ih =>
    cases parameters with
    | nil => rfl
    | cons p parameters => simp [fixedScore, ih]

theorem foldl_add_eq_sum (start : Int) (xs : List Int) : xs.foldl (· + ·) start = start + xs.sum := by
  induction xs generalizing start with
  | nil => simp
  | cons x xs ih => simp [ih, Int.add_assoc]

theorem mapIdx_scoreAt_fixed (h : hasVarargs m = false) (hcount : types.length = m.parameters.length) :
    types.mapIdx (scoreAt m types.length) =
      List.zipWith (fun type (p : Parameter) => argumentScore type p.typeText) types m.parameters := by
  refine List.ext_getElem (by simp [hcount]) fun i hi hi' => ?_
  have hp : i < m.parameters.length := by simpa [hcount] using hi
  simp [scoreAt, h, hp]

/-- Scores of any number of arguments: those in front of the last parameter, then all for it. -/
theorem mapIdx_scoreAt_varargs (h : hasVarargs m = true)
    (hcount : m.parameters.length ≤ types.length + 1) :
    types.mapIdx (scoreAt m types.length) =
      List.zipWith (fun type (p : Parameter) => argumentScore type p.typeText)
        (types.take (m.parameters.length - 1)) (m.parameters.take (m.parameters.length - 1)) ++
      (types.drop (m.parameters.length - 1)).map fun type =>
        varargsScore (types.length == m.parameters.length) type
          (elementType ((m.parameters.getLast?.map (·.typeText)).getD "")) := by
  have hpos : 0 < m.parameters.length := by
    by_contra hzero
    have hnil : m.parameters = [] := List.length_eq_zero_iff.mp (by omega)
    simp [hasVarargs, hnil] at h
  have hmin : min (m.parameters.length - 1) types.length = m.parameters.length - 1 := by omega
  refine List.ext_getElem (by simp; omega) fun i hi hi' => ?_
  have hi : i < types.length := by simpa using hi
  by_cases hlast : m.parameters.length ≤ i + 1
  · have hplace : m.parameters.length - 1 + (i - (m.parameters.length - 1)) = i := by omega
    rw [List.getElem_append_right (by simp; omega)]
    simp [scoreAt, h, hlast, hmin, hplace]
  · have hp : i < m.parameters.length := by omega
    rw [List.getElem_append_left (by simp; omega)]
    simp [scoreAt, h, hlast, hp]

theorem applicability_eq (m : Method) (types : List (Option String)) :
    applicability m types = if Takes m types.length then some (value m types) else none := by
  unfold applicability Takes value
  dsimp only
  by_cases h : hasVarargs m = true
  · simp only [h, ↓reduceIte, Bool.not_true]
    by_cases hcount : m.parameters.length ≤ types.length + 1
    · rw [if_neg (by omega), if_pos hcount, mapIdx_scoreAt_varargs h hcount, List.sum_append,
        foldl_add_eq_sum, fixedScore_eq_sum]
    · rw [if_pos (by omega), if_neg hcount]
  · rw [Bool.not_eq_true] at h
    simp only [h, Bool.false_eq_true, ↓reduceIte, Bool.not_false]
    by_cases hcount : types.length = m.parameters.length
    · rw [if_neg (by simpa using hcount), if_pos hcount, mapIdx_scoreAt_fixed h hcount,
        fixedScore_eq_sum]
    · rw [if_pos (by simpa using hcount), if_neg hcount]

theorem better_iff (a b : Int × Bool) : better a b = true ↔ toLex b < toLex a := by
  obtain ⟨a, fixed⟩ := a
  obtain ⟨b, fixed'⟩ := b
  rw [Prod.Lex.toLex_lt_toLex]
  cases fixed <;> cases fixed' <;> simp [better, @eq_comm _ a b]

-- ---------------------------------------------------------------------------
-- The first of the best
-- ---------------------------------------------------------------------------

/-- The method takes the arguments. Those in front that take them are worth less, those behind are not
worth more. -/
def FirstBest (types : List (Option String)) (candidates : List Method) (m : Method) : Prop :=
  ∃ front back, candidates = front ++ m :: back ∧ Takes m types.length ∧
    (∀ n ∈ front, Takes n types.length → toLex (value n types) < toLex (value m types)) ∧
    ∀ n ∈ back, Takes n types.length → toLex (value n types) ≤ toLex (value m types)

def BestOf (types : List (Option String)) (done : List Method) :
    Option (Method × (Int × Bool)) → Prop
  | none => ∀ m ∈ done, ¬Takes m types.length
  | some (m, score) => score = value m types ∧ FirstBest types done m

theorem BestOf.step (h : BestOf types done best) (m : Method) :
    BestOf types (done ++ [m])
      (if Takes m types.length ∧ best.all (fun found => better (value m types) found.2) then
        some (m, value m types) else best) := by
  split
  · rename_i hm
    obtain ⟨htakes, hbetter⟩ := hm
    refine ⟨rfl, done, [], rfl, htakes, fun n hn hcount => ?_, by simp⟩
    cases best with
    | none => exact absurd hcount (h n hn)
    | some found =>
      obtain ⟨b, score⟩ := found
      obtain ⟨rfl, front, back, rfl, -, hfront, hback⟩ := h
      have hlt : toLex (value b types) < toLex (value m types) := by
        simpa [better_iff] using hbetter
      rcases List.mem_append.mp hn with hn | hn
      · exact (hfront n hn hcount).trans hlt
      · rcases List.mem_cons.mp hn with rfl | hn
        · exact hlt
        · exact (hback n hn hcount).trans_lt hlt
  · rename_i hm
    cases best with
    | none =>
      refine List.forall_mem_append.mpr ⟨h, fun n hn hcount => hm ?_⟩
      rw [← List.mem_singleton.mp hn]
      exact ⟨hcount, rfl⟩
    | some found =>
      obtain ⟨b, score⟩ := found
      obtain ⟨rfl, front, back, rfl, htakes, hfront, hback⟩ := h
      refine ⟨rfl, front, back ++ [m], by simp, htakes, hfront, ?_⟩
      refine List.forall_mem_append.mpr ⟨hback, fun n hn hcount => ?_⟩
      obtain rfl := List.mem_singleton.mp hn
      rw [← not_lt, ← better_iff]
      exact fun hbetter => hm ⟨hcount, by simpa using hbetter⟩

theorem bestFrom_cons (arguments : List (Option String)) (best : Option (Method × (Int × Bool)))
    (m : Method) (rest : List Method) :
    bestFrom arguments best (m :: rest) = bestFrom arguments
      (if Takes m arguments.length ∧ best.all (fun found => better (value m arguments) found.2) then
        some (m, value m arguments) else best) rest := by
  rw [bestFrom, applicability_eq]
  by_cases htakes : Takes m arguments.length
  · simp only [htakes, ↓reduceIte, true_and]
    split <;> rfl
  · simp [htakes]

theorem BestOf.run (h : BestOf types done best) (candidates : List Method) :
    BestOf types (done ++ candidates) (bestFrom types best candidates) := by
  induction candidates generalizing done best with
  | nil => simpa [bestFrom] using h
  | cons m candidates ih =>
    rw [bestFrom_cons]
    simpa using ih (h.step m)

theorem choose_cases (candidates : List Method) (types : List (Option String)) :
    (choose candidates types = none ∧ ∀ m ∈ candidates, ¬Takes m types.length) ∨
      ∃ m, choose candidates types = some m ∧ FirstBest types candidates m := by
  have hstart : BestOf types [] none := by simp [BestOf]
  have hrun := hstart.run candidates
  unfold choose
  cases hbest : bestFrom types none candidates with
  | none => exact .inl ⟨rfl, by simpa [hbest, BestOf] using hrun⟩
  | some found =>
    rw [hbest] at hrun
    exact .inr ⟨found.1, rfl, by simpa using hrun.2⟩

theorem FirstBest.takes (h : FirstBest types candidates m) :
    m ∈ candidates ∧ Takes m types.length := by
  obtain ⟨front, back, rfl, htakes, -⟩ := h
  exact ⟨by simp, htakes⟩

theorem FirstBest.unique (hm : FirstBest types candidates m) (hn : FirstBest types candidates n) :
    m = n := by
  obtain ⟨front, back, rfl, hmtakes, hmfront, hmback⟩ := hm
  obtain ⟨front', back', heq, hntakes, hnfront, hnback⟩ := hn
  rcases List.append_eq_append_iff.mp heq with ⟨mid, rfl, hmid⟩ | ⟨mid, rfl, hmid⟩
  · cases mid with
    | nil => exact (List.cons.inj hmid).1
    | cons x mid =>
      obtain ⟨rfl, rfl⟩ := List.cons.inj hmid
      exact absurd (hnfront m (by simp) hmtakes) (hmback n (by simp) hntakes).not_gt
  · cases mid with
    | nil => exact (List.cons.inj hmid).1.symm
    | cons x mid =>
      obtain ⟨rfl, rfl⟩ := List.cons.inj hmid
      exact absurd (hmfront n (by simp) hntakes) (hnback m (by simp) hmtakes).not_gt

theorem choose_eq_none_iff :
    choose candidates types = none ↔ ∀ m ∈ candidates, ¬Takes m types.length := by
  rcases choose_cases candidates types with ⟨hnone, hall⟩ | ⟨m, hsome, hbest⟩
  · simpa [hnone] using hall
  · simpa [hsome] using ⟨m, hbest.takes⟩

theorem choose_eq_some_iff : choose candidates types = some m ↔ FirstBest types candidates m := by
  rcases choose_cases candidates types with ⟨hnone, hall⟩ | ⟨n, hsome, hbest⟩
  · simpa [hnone] using fun hm : FirstBest types candidates m => hall m hm.takes.1 hm.takes.2
  · rw [hsome, Option.some_inj]
    exact ⟨fun heq => heq ▸ hbest, fun hm => hbest.unique hm⟩

end Overload

namespace Scopes

open Overload

variable {s : Scopes} {name : String} {known : Resolved} {types : List (Option String)}

-- ---------------------------------------------------------------------------
-- The type whose methods are candidates
-- ---------------------------------------------------------------------------

structure Innermost (scopes : List Scope) (name : String) (scope : Scope) : Prop where
  inside : ∃ inner outer, scopes = inner ++ scope :: outer ∧ ∀ i ∈ inner, i.methodsNamed name = []
  declares : scope.methodsNamed name ≠ []

theorem innermost_iff {scopes : List Scope} {scope : Scope} :
    Innermost scopes name scope ↔
      scopes.find? (fun scope => !(scope.methodsNamed name).isEmpty) = some scope := by
  rw [List.find?_eq_some_iff_append]
  constructor
  · rintro ⟨⟨inner, outer, hsplit, hinner⟩, hdeclares⟩
    exact ⟨by simpa using hdeclares, inner, outer, hsplit, fun i hi => by simpa using hinner i hi⟩
  · rintro ⟨hdeclares, inner, outer, hsplit, hinner⟩
    exact ⟨⟨inner, outer, hsplit, fun i hi => by simpa using hinner i hi⟩, by simpa using hdeclares⟩

/-- What a call is bound to: nothing if no type has a method of the name, or if none of those of the
innermost type that has one takes the arguments; otherwise the first of the best of these. -/
structure Chooses (scopes : List Scope) (name : String) (types : List (Option String))
    (found : Option Resolution) : Prop where
  none_iff : found = none ↔ (∀ scope ∈ scopes, scope.methodsNamed name = []) ∨
    ∃ scope, Innermost scopes name scope ∧
      ∀ m ∈ scope.methodsNamed name, ¬Takes m types.length
  some_iff : ∀ r, found = some r ↔ ∃ scope, Innermost scopes name scope ∧
    r.declaringType = scope.binding ∧ FirstBest types (scope.methodsNamed name) r.method

theorem lookup_chooses (s : Scopes) (name : String)
    (argumentTypes : StateM Resolved (List (Option String))) (known : Resolved) :
    Chooses s.types name (argumentTypes.run known).1 ((s.lookup name argumentTypes).run known).1 := by
  unfold lookup
  cases hfind : s.types.find? fun scope => !(scope.methodsNamed name).isEmpty with
  | none =>
    have hno (scope : Scope) : ¬Innermost s.types name scope := by simp [innermost_iff, hfind]
    have hempty : ∀ scope ∈ s.types, scope.methodsNamed name = [] := by simpa using hfind
    exact ⟨⟨fun _ => .inl hempty, fun _ => rfl⟩, by simp [hno]⟩
  | some scope =>
    have honly {other : Scope} : Innermost s.types name other ↔ scope = other := by
      rw [innermost_iff, hfind, Option.some_inj]
    have hscope : Innermost s.types name scope := honly.mpr rfl
    have hmem : scope ∈ s.types := List.mem_of_find?_eq_some hfind
    simp only [StateT.run_bind, StateT.run_pure]
    refine ⟨?_, fun r => ?_⟩
    · refine Option.map_eq_none_iff.trans (choose_eq_none_iff.trans
        ⟨fun h => .inr ⟨scope, hscope, h⟩, ?_⟩)
      rintro (hempty | ⟨other, hother, h⟩)
      · exact absurd (hempty scope hmem) hscope.declares
      · exact honly.mp hother ▸ h
    · refine Option.map_eq_some_iff.trans ⟨?_, ?_⟩
      · rintro ⟨m, hm, rfl⟩
        exact ⟨scope, hscope, rfl, choose_eq_some_iff.mp hm⟩
      · rintro ⟨other, hother, hdeclaring, hbest⟩
        obtain rfl := honly.mp hother
        exact ⟨r.method, choose_eq_some_iff.mpr hbest, by rw [← hdeclaring]⟩

/-- A call is resolved by the types that its arguments are found to have, among the methods of the
innermost type that has one of its name, and stays resolved. The types around that one make no
difference. -/
theorem resolve_chooses :
    (∀ (s : Scopes) (site : Position) (name : String) (arguments : List Code) (known : Resolved),
      known.lookup site = none →
      Chooses s.types name ((inferAll s arguments).run known).1
          ((s.resolve site name arguments).run known).1 ∧
        ((s.resolve site name arguments).run known).2.lookup site =
          some ((s.resolve site name arguments).run known).1) ∧
    (∀ (s : Scopes) (site : Position) (name : String) (arguments : List Code) (known : Resolved)
      (found : Option Resolution), known.lookup site = some found →
      (s.resolve site name arguments).run known = (found, known)) ∧
    ∀ (inner outer outer' : List Scope) (scope : Scope) (locals : Variables) (name : String)
      (argumentTypes : StateM Resolved (List (Option String))), scope.methodsNamed name ≠ [] →
      (Scopes.mk (inner ++ scope :: outer) locals).lookup name argumentTypes =
        (Scopes.mk (inner ++ scope :: outer') locals).lookup name argumentTypes := by
  refine ⟨fun s site name arguments known hnew => ?_, fun s site name arguments known found hknown =>
    lookupOnce_known s name _ hknown, ?_⟩
  · rw [resolve, lookupOnce_new s name _ hnew]
    exact ⟨lookup_chooses s name _ known, by simp⟩
  · intro inner outer outer' scope locals name argumentTypes hdeclares
    have hfind (outer : List Scope) :
        (inner ++ scope :: outer).find? (fun scope => !(scope.methodsNamed name).isEmpty) =
          (inner ++ [scope]).find? fun scope => !(scope.methodsNamed name).isEmpty := by
      have hhere : (!(scope.methodsNamed name).isEmpty) = true := by simpa using hdeclares
      simp [List.find?_append, hhere]
    unfold lookup
    rw [hfind outer, hfind outer']

def overloaded : Scopes :=
  let method (type : String) (varargs : Bool) : Method :=
    { name := "f", parameters := [{ typeText := type, varargs }] }
  { types := [
      { binding := ⟨"C", "p.A$B$C", false, false⟩ },
      { binding := ⟨"B", "p.A$B", false, false⟩,
        methods := [{ name := "f", parameters := [{ typeText := "int" }], isConstructor := true },
          method "Object..." true, method "long" false, method "Object" false, method "int..." true] },
      { binding := ⟨"A", "p.A", true, false⟩,
        methods := [method "int" false, { name := "g", returnType := some "int" }] }] }

theorem resolve_chooses_overloaded :
    ∃ r, ((overloaded.resolve ⟨1, 1⟩ "f" [.call ⟨1, 3⟩ "" "g" []]).run []).1 = some r ∧
      r.declaringType.name = "B" ∧ r.method.parameterTypes = ["int..."] ∧
      Chooses overloaded.types "f" [some "int"] (some r) ∧
      (overloaded.resolve ⟨1, 1⟩ "f" []).run [(⟨1, 1⟩, some r)] = (some r, [(⟨1, 1⟩, some r)]) ∧
      overloaded.lookup "f" (pure [some "int"]) =
        (Scopes.mk (overloaded.types.take 2) []).lookup "f" (pure [some "int"]) := by
  obtain ⟨hnew, hknown, haround⟩ := resolve_chooses
  obtain ⟨hchooses, -⟩ := hnew overloaded ⟨1, 1⟩ "f" [.call ⟨1, 3⟩ "" "g" []] [] rfl
  have htypes : ((inferAll overloaded [.call ⟨1, 3⟩ "" "g" []]).run []).1 = [some "int"] := by
    decide +kernel
  have hfound : (((overloaded.resolve ⟨1, 1⟩ "f" [.call ⟨1, 3⟩ "" "g" []]).run []).1.any fun r =>
      decide (r.declaringType.name = "B" ∧ r.method.parameterTypes = ["int..."])) = true := by
    decide +kernel
  obtain ⟨r, hr, hshown⟩ := (Option.any_eq_true _ _).mp hfound
  obtain ⟨hname, hparameters⟩ := of_decide_eq_true hshown
  rw [htypes, hr] at hchooses
  refine ⟨r, hr, hname, hparameters, hchooses, hknown _ _ _ _ _ _ (by simp), ?_⟩
  exact haround (overloaded.types.take 1) _ [] _ [] "f" (pure [some "int"]) (by decide)

end Scopes

end CallerFirst.Java
