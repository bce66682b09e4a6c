import CallerFirst.Tree

/-!
# Signatures

The key of a method within one unit: its name and its parameter types without type arguments. Blocks
that run when an object is made have keys of their own, which no method can have.
-/

namespace CallerFirst

structure Signature where
  key : String
  deriving DecidableEq, Inhabited

namespace Signature

instance : ToString Signature := ⟨key⟩

instance : LT Signature := ⟨fun a b => a.key < b.key⟩

instance (a b : Signature) : Decidable (a < b) :=
  inferInstanceAs (Decidable (a.key < b.key))

def stripTypeArguments (typeText : String) : String :=
  String.ofList (typeText.toList.takeWhile (· != '<'))

def render (name : String) (parameterTypes : List String) : Signature :=
  ⟨name ++ "(" ++ String.intercalate ", " (parameterTypes.map stripTypeArguments) ++ ")"⟩

def ofMethod (m : Method) : Signature :=
  render m.name m.parameterTypes

def ofBinding (b : MethodBinding) : Signature :=
  render b.name b.parameterTypes

def initializerStart : String := "#INITIALIZER#_"

def fieldInitializerStart : String := "#FIELD_INITIALIZER#_"

def ofInitializer (index : Int) : Signature :=
  ⟨initializerStart ++ toString index⟩

def ofFieldInitializer (index : Int) : Signature :=
  ⟨fieldInitializerStart ++ toString index⟩

def isSynthetic (s : Signature) : Bool :=
  initializerStart.toList.isPrefixOf s.key.toList ||
    fieldInitializerStart.toList.isPrefixOf s.key.toList

def name (s : Signature) : String :=
  String.ofList (s.key.toList.takeWhile (· != '('))

end Signature

end CallerFirst
