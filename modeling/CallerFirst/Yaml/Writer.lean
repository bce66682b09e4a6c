import CallerFirst.Config.Value

/-!
# Writing documents

A map of scalars and of such maps, a line for each key.
-/

namespace CallerFirst.Yaml

/-- A scalar. Texts are written plain, so they must not read as anything else; the empty text is
quoted. -/
def writeScalar : Value → String
  | .bool b => if b then "true" else "false"
  | .int n => toString n
  | .text s => if s.isEmpty then "''" else s
  | .float x => x.render
  | _ => "null"

mutual
def writePair (depth : Nat) (key : Value) : Value → List String
  | .map entries => (indent depth ++ writeScalar key ++ ":") :: writeEntries (depth + 2) entries
  | v => [indent depth ++ writeScalar key ++ ": " ++ writeScalar v]
where
  indent (depth : Nat) : String := String.ofList (List.replicate depth ' ')
def writeEntries (depth : Nat) : List (Value × Value) → List String
  | [] => []
  | (key, v) :: rest => writePair depth key v ++ writeEntries depth rest
end

def write (entries : List (Value × Value)) : String :=
  String.join ((writeEntries 0 entries).map (· ++ "\n"))

end CallerFirst.Yaml
