/-!
# Declarations that do not fit their source

Reasons for leaving a unit as it is.
-/

namespace CallerFirst

inductive Malformed where
  | unbalancedBraces
  | notTerminated (line : Nat)
  | constantCount (type : String) (found parsed : Nat)
  | tooManyRuns (type : String)
  | mismatch (type : String) (line : Nat) (rule : String)
  | notFound (type : String) (count : Nat)
  | overlap (start stop : Int)
  | notPermutation
  deriving DecidableEq

def Malformed.message : Malformed → String
  | .unbalancedBraces => "Unbalanced braces in type body"
  | .notTerminated line =>
    "Declaration starting at line " ++ toString line ++ " is not terminated"
  | .constantCount type found parsed =>
    type ++ ": found " ++ toString found ++ " enum constants in the source, parsed " ++
      toString parsed
  | .tooManyRuns type => type ++ ": more declarations in the source than parsed"
  | .mismatch type line rule =>
    type ++ ": declaration at line " ++ toString line ++ " does not match the parsed " ++ rule
  | .notFound type count =>
    type ++ ": " ++ toString count ++ " parsed declarations not found in the source"
  | .overlap start stop =>
    "Member span [" ++ toString start ++ ", " ++ toString stop ++ ") overlaps the previous member"
  | .notPermutation => "Member ordering is not a permutation of the members"

end CallerFirst
