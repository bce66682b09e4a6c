import CallerFirst.Java.Token
import CallerFirst.Java.TypeRef
import CallerFirst.Tree

/-!
# Java code

The syntax tree keeps what ordering can see: calls, the names and types that decide between
overloads, variables with their types, and the bodies of classes. Any other construct is kept only
as its parts, in the order in which they are looked at.
-/

namespace CallerFirst.Java

inductive TypeKind where
  | class_
  | interface
  | enum
  | annotationType
  deriving DecidableEq, Inhabited

def TypeKind.name : TypeKind → String
  | .class_ => "class"
  | .interface => "interface"
  | .enum => "enum"
  | .annotationType => "annotation"

/-- What stands in front of a type's body. `position` is where the word stands that says what kind
of type it is. -/
structure TypeHead where
  kind : TypeKind
  name : String
  position : Position
  modifiers : List String := []
  deriving Inhabited

structure Declarator where
  name : String
  dimensions : Nat
  deriving Inhabited

/-- Header of a field; constants are the fields of interfaces and annotation types. -/
structure FieldHead where
  type : TypeRef
  declarators : List Declarator
  modifiers : List String := []
  isConstant : Bool
  deriving Inhabited

mutual
inductive Code where
  | literal (text : String)
  | name (qualifier member : String)
  | this (qualifier : String)
  /-- A call; `site` is where it stands and tells it from every other call. -/
  | call (site : Position) (qualifier member : String) (arguments : List Code)
  | create (type : TypeRef) (arguments : List Code) (body : Option (List Declaration))
  | createInner (arguments : List Code) (body : Option (List Declaration))
  /-- A new array; `parts` are the sizes given and the initial elements. -/
  | createArray (type : TypeRef) (dimensions : Nat) (parts : List Code)
  | cast (type : TypeRef) (operand : Code)
  | binary (operator : String) (left right : Code)
  | conditional (condition whenTrue whenFalse : Code)
  /-- A target followed by `.name`, `.name(…)`, `[…]` and the like. -/
  | select (target : Code) (selectors : List Code)
  /-- Variables with the texts of their types, then what belongs to the declaration. -/
  | declare (declared : List (String × String)) (parts : List Code)
  | localType (type : TypeDeclaration)
  /-- A primary expression of which only the parts matter. -/
  | primary (parts : List Code)
  | compound (parts : List Code)
inductive Declaration where
  | method (header : Method) (annotations parameters body : List Code)
  | field (head : FieldHead) (annotations initializers : List Code)
  | enumConstant (name : String) (annotations arguments : List Code)
      (body : Option (List Declaration))
  | annotationMember (name : String) (returnType : TypeRef) (annotations default : List Code)
  | block (statements : List Code)
  | type (declaration : TypeDeclaration)
inductive TypeDeclaration where
  | mk (head : TypeHead) (annotations : List Code) (constants declarations : List Declaration)
end

instance : Inhabited Code := ⟨.compound []⟩
instance : Inhabited Declaration := ⟨.block []⟩
instance : Inhabited TypeDeclaration := ⟨.mk default [] [] []⟩

namespace TypeDeclaration

def head : TypeDeclaration → TypeHead
  | mk head _ _ _ => head

def withModifiers : TypeDeclaration → List String → List Code → TypeDeclaration
  | mk head _ constants declarations, modifiers, annotations =>
    .mk { head with modifiers } annotations constants declarations

end TypeDeclaration

namespace Code

/-- Primary expressions keep their selectors in front of their own parts. -/
def isPrimary : Code → Bool
  | literal .. | name .. | this .. | call .. | create .. | createInner .. | createArray ..
  | primary .. => true
  | _ => false

def withSelectors : Code → List Code → Code
  | select target _, selectors => withoutSelectors target selectors
  | target, selectors => withoutSelectors target selectors
where
  withoutSelectors (target : Code) : List Code → Code
    | [] => target
    | selectors => .select target selectors

end Code

namespace Declaration

def isBlock : Declaration → Bool
  | block _ => true
  | _ => false

def ruleName : Declaration → String
  | method header .. => if header.isConstructor then "ConstructorDeclaration" else "MethodDeclaration"
  | field head .. => if head.isConstant then "ConstantDeclaration" else "FieldDeclaration"
  | enumConstant .. => "EnumConstantDeclaration"
  | annotationMember .. => "AnnotationMethod"
  | block _ => "list"
  | type declaration =>
    match declaration.head.kind with
    | .class_ => "ClassDeclaration"
    | .interface => "InterfaceDeclaration"
    | .enum => "EnumDeclaration"
    | .annotationType => "AnnotationDeclaration"

end Declaration

end CallerFirst.Java
