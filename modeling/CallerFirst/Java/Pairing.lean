import CallerFirst.Java.Span

/-!
# Declarations and their runs

Lines up what was parsed of a body with the runs found in its tokens. The grammar drops blocks
without statements; their runs stand for themselves.
-/

namespace CallerFirst.Java

/-- A declaration with its span; a run without declaration is an empty block. -/
structure Pair (α : Type) where
  declaration : Option α
  span : Option (Nat × Nat)
  isStatic : Bool

namespace Pair

def unplaced (declarations : List α) : List (Pair α) :=
  declarations.map fun d => ⟨some d, none, false⟩

variable (s : Source) (type : String) (isBlock : α → Bool) (ruleName : α → String)

def constants : List α → List Run → Except Fault (List (Pair α))
  | d :: declarations, run :: runs => do
    let span ← s.span run
    return ⟨some d, some span, false⟩ :: (← constants declarations runs)
  | _, _ => .ok []

/-- Pairs members with their runs. A block goes only with a run that starts like one. -/
def members : List α → List Run → Except Fault (List (Pair α))
  | remaining, run :: runs => do
    let isInitializer := Body.isInitializer s.tokens run
    let first := s.tokens.getD run.first default
    let isStatic := first.text == "static" && isInitializer
    if Body.isEmptyInitializer s.tokens run then
      let span ← s.span run
      return ⟨none, some span, isStatic⟩ :: (← members remaining runs)
    else
      match remaining with
      | [] => throw (.malformed (.tooManyRuns type))
      | d :: remaining =>
        if isBlock d != isInitializer then
          throw (.malformed (.mismatch type first.position.line (ruleName d)))
        let span ← s.span run
        return ⟨some d, some span, isStatic⟩ :: (← members remaining runs)
  | [], [] => .ok []
  | remaining, [] => .error (.malformed (.notFound type remaining.length))

def ofBody (body : Body) (constantDeclarations declarations : List α) :
    Except Fault (List (Pair α) × List (Pair α)) := do
  if body.constants.length != constantDeclarations.length then
    throw (.malformed
      (.constantCount type body.constants.length constantDeclarations.length))
  let front ← constants s constantDeclarations body.constants
  let back ← members s type isBlock ruleName declarations body.members
  return (front, back)

end Pair

end CallerFirst.Java
