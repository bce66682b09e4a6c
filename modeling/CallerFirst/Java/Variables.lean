import CallerFirst.Java.Code

/-!
# Local variables

Names declared below a piece of code with the texts of their types, in the order in which they are
met. Bodies of nested classes are looked at too. Of several declarations of a name the first counts.
-/

namespace CallerFirst.Java

/-- Names with type texts; the first entry of a name counts. -/
abbrev Variables := List (String × String)

mutual
def Code.locals : Code → Variables
  | .literal _ | .name _ _ | .this _ => []
  | .call _ _ _ arguments => localsOfAll arguments
  | .create _ arguments body => localsOfAll arguments ++ localsOfBody body
  | .createInner arguments body => localsOfAll arguments ++ localsOfBody body
  | .createArray _ _ parts => localsOfAll parts
  | .cast _ operand => operand.locals
  | .binary _ left right => left.locals ++ right.locals
  | .conditional condition whenTrue whenFalse =>
    condition.locals ++ whenTrue.locals ++ whenFalse.locals
  | .select target selectors =>
    (if target.isPrimary then localsOfAll selectors else []) ++ target.locals
  | .declare declared parts => declared ++ localsOfAll parts
  | .localType declaration => declaration.locals
  | .primary parts => localsOfAll parts
  | .compound parts => localsOfAll parts
def Declaration.locals : Declaration → Variables
  | .method _ annotations parameters body =>
    localsOfAll annotations ++ localsOfAll parameters ++ localsOfAll body
  | .field _ annotations initializers =>
    localsOfAll annotations ++ localsOfAll initializers
  | .enumConstant _ annotations arguments body =>
    localsOfAll annotations ++ localsOfAll arguments ++ localsOfBody body
  | .annotationMember _ _ annotations default =>
    localsOfAll annotations ++ localsOfAll default
  | .block statements => localsOfAll statements
  | .type declaration => declaration.locals
def TypeDeclaration.locals : TypeDeclaration → Variables
  | .mk _ annotations constants declarations =>
    localsOfAll annotations ++ localsOfMembers constants ++ localsOfMembers declarations
def localsOfAll : List Code → Variables
  | [] => []
  | code :: rest => code.locals ++ localsOfAll rest
def localsOfMembers : List Declaration → Variables
  | [] => []
  | declaration :: rest => declaration.locals ++ localsOfMembers rest
def localsOfBody : Option (List Declaration) → Variables
  | none => []
  | some declarations => localsOfMembers declarations
end

end CallerFirst.Java
