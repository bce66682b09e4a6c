import CallerFirst.Config.Preferences
import CallerFirst.Config.Value
import CallerFirst.Sorting
import CallerFirst.Text.Blank
import CallerFirst.Text.Case
import CallerFirst.Text.Split
import CallerFirst.Yaml.Fault

/-!
# Preferences as options

`Preferences.ofValue` checks the options of a map and reads them; `Preferences.toFields` writes them
back. Priorities are one text, joined by `#`.
-/

namespace CallerFirst

inductive OptionFault where
  | unknownOptions (names : List String)
  | priorityNotText (value : Value)
  | unknownPriority (given : String)
  | unknownStrategy (value : Value)
  | unknownStartpoints (value : Value)
  | notBoolean (option : String) (value : Value)
  | unknownCategory (value : Value)
  | rankNotInteger (category : String) (value : Value)
  | unknownCriterion (name : String)
  | unknownTraversal (name : String)
  | unreadableFile (path : String)
  | noMapping (path : String)
  | document (fault : Yaml.Fault)
  /-- A value would have to be shown that holds a number too long for it. -/
  | longNumber
  /-- A value is of a type that cannot be used there at all. -/
  | wrongType
  /-- A value lacks an operation that is needed there. -/
  | wrongShape

namespace OptionFault

def priorityNames : String :=
  String.intercalate ", " (Priority.all.map (·.name))

def categoryNames : String :=
  String.intercalate ", " (Category.all.map (·.name))

def about (v : Value) (fault : OptionFault) : OptionFault :=
  if v.hasLongNumber then .longNumber else fault

/-- Text of a fault that is the user's. -/
def message? : OptionFault → Option String
  | unknownOptions names => some ("Unknown preference option(s): " ++ String.intercalate ", " names)
  | priorityNotText v => some ("Ordering priority must be a string, got " ++ v.inspect)
  | unknownPriority given =>
    some ("Unknown ordering priority '" ++ given ++ "'; expected one of " ++ priorityNames)
  | unknownStrategy v =>
    some ("Unknown invocation strategy '" ++ v.plain ++ "'; expected " ++
      Strategy.depthFirst.name ++ " or " ++ Strategy.breadthFirst.name)
  | unknownStartpoints v =>
    some ("Unknown startpoint strategy '" ++ v.plain ++ "'; expected " ++
      Startpoints.heuristic.name ++ " or " ++ Startpoints.user.name)
  | notBoolean option v => some (option ++ " must be a boolean, got " ++ v.inspect)
  | unknownCategory v =>
    some ("Unknown member category '" ++ v.plain ++ "'; expected one of " ++ categoryNames)
  | rankNotInteger category v =>
    some ("Rank of member category '" ++ category ++ "' must be an integer, got " ++ v.inspect)
  | unknownCriterion name => some ("Unknown ordering priority: " ++ name)
  | unknownTraversal name => some ("Unknown invocation strategy: " ++ name)
  | unreadableFile path => some ("Error parsing YAML preference file " ++ path)
  | noMapping path => some ("Preference file " ++ path ++ " must hold a mapping")
  | document _ | longNumber | wrongType | wrongShape => none

def valueMessage? : OptionFault → Option String
  | document fault => fault.message?
  | longNumber => some (Integer.limitText none)
  | _ => none

end OptionFault

namespace Priority

def delimiter : Char := '#'

/-- Reads one priority; blanks around it and case do not matter. -/
def read (given : String) : Except OptionFault Priority :=
  match ofName? (Text.upper (Text.strip given)) with
  | some p => .ok p
  | none => .error (.unknownPriority given)

def ofValue (v : Value) : Except OptionFault Priority :=
  match v with
  | .text given => read given
  | v => .error (.about v (.priorityNotText v))

def validate (v : Value) : Except OptionFault (List Priority) :=
  match v.items? with
  | some items => items.mapM ofValue
  | none => .error .wrongType

/-- Reads priorities joined by the delimiter; empty parts are passed over. -/
def decode (encoded : String) : Except OptionFault (List Priority) :=
  let parts := (Text.split delimiter encoded.toList).map Text.trim
  (parts.filter (!·.isEmpty)).mapM fun part => read (String.ofList part)

def encode (priorities : List Priority) : String :=
  String.intercalate (String.singleton delimiter) (priorities.map (·.name))

def joinTexts (v : Value) : Except OptionFault String :=
  match v.items?.bind Value.texts? with
  | some texts => .ok (String.intercalate (String.singleton delimiter) texts)
  | none => .error .wrongType

def decodeValue (v : Value) : Except OptionFault (List Priority) :=
  match v with
  | .text encoded => decode encoded
  | _ => .error .wrongShape

end Priority

namespace CategoryRanks

def setByName (r : CategoryRanks) (entry : Value × Value) : Except OptionFault CategoryRanks :=
  match entry.1.text?.bind Category.ofName? with
  | none => .error (.about entry.1 (.unknownCategory entry.1))
  | some c =>
    match entry.2 with
    | .int n => .ok (r.set c n)
    | v => .error (.about v (.rankNotInteger c.name v))

def ofValue (v : Value) : Except OptionFault CategoryRanks :=
  if v.isEmpty then .ok {}
  else
    match v with
    | .map entries => entries.foldlM setByName {}
    | _ => .error .wrongShape

def toValue (r : CategoryRanks) : Value :=
  .map (Category.all.map fun c => (.text c.name, .int (r.get c)))

end CategoryRanks

namespace Preferences

/-- Names of the options, in the order in which they are written. -/
def optionNames : List String :=
  ["ordering_priorities", "invocation_strategy", "startpoint_strategy", "respect_before_after",
   "cluster_getter_setter", "cluster_overloaded", "member_category_order"]

def toFields (p : Preferences) : List (Value × Value) :=
  [(.text "ordering_priorities", .text (Priority.encode p.priorities)),
   (.text "invocation_strategy", .text p.strategy.name),
   (.text "startpoint_strategy", .text p.startpoints.name),
   (.text "respect_before_after", .bool p.respectBeforeAfter),
   (.text "cluster_getter_setter", .bool p.clusterGetterSetter),
   (.text "cluster_overloaded", .bool p.clusterOverloaded),
   (.text "member_category_order", p.categoryRanks.toValue)]

/-- An option as it is read; one that is missing keeps its value. -/
def readOption (entries : List (Value × Value)) (name : String) (default : α)
    (read : Value → Except OptionFault α) : Except OptionFault α :=
  match Value.field? entries name with
  | some v => read v
  | none => .ok default

def readPriorities : Value → Except OptionFault (List Priority)
  | .text encoded => Priority.decode encoded
  | v => Priority.validate v

def readStrategy (v : Value) : Except OptionFault Strategy :=
  match v.text?.bind Strategy.ofName? with
  | some s => .ok s
  | none => .error (.about v (.unknownStrategy v))

def readStartpoints (v : Value) : Except OptionFault Startpoints :=
  match v.text?.bind Startpoints.ofName? with
  | some s => .ok s
  | none => .error (.about v (.unknownStartpoints v))

def readBool (option : String) : Value → Except OptionFault Bool
  | .bool b => .ok b
  | v => .error (.about v (.notBoolean option v))

/-- Reads the options of a map in their order; the first fault counts. -/
def ofFields (entries : List (Value × Value)) : Except OptionFault Preferences := do
  let usual : Preferences := {}
  let flag (name : String) (default : Bool) := readOption entries name default (readBool name)
  let priorities ← readOption entries "ordering_priorities" usual.priorities readPriorities
  let strategy ← readOption entries "invocation_strategy" usual.strategy readStrategy
  let startpoints ← readOption entries "startpoint_strategy" usual.startpoints readStartpoints
  let respectBeforeAfter ← flag "respect_before_after" usual.respectBeforeAfter
  let clusterGetterSetter ← flag "cluster_getter_setter" usual.clusterGetterSetter
  let clusterOverloaded ← flag "cluster_overloaded" usual.clusterOverloaded
  let categoryRanks ←
    readOption entries "member_category_order" usual.categoryRanks CategoryRanks.ofValue
  return { priorities, strategy, startpoints, respectBeforeAfter, clusterGetterSetter,
           clusterOverloaded, categoryRanks }

def sortTexts (texts : List String) : List String :=
  Sorting.sort (fun a b => a < b) texts

def checkNames (keys : List Value) : Except OptionFault Unit :=
  let unknown := keys.filter fun k => !(k.text?.any optionNames.contains)
  if unknown.isEmpty then .ok ()
  else
    match Value.texts? unknown with
    | some names => .error (.unknownOptions (sortTexts names))
    | none => .error .wrongType

def ofValue (v : Value) : Except OptionFault Preferences :=
  match v.items? with
  | none => .error .wrongType
  | some keys => do
    checkNames keys
    match v with
    | .map entries => ofFields entries
    | _ => .error .wrongType

/-- Preferences with some options changed; an option set to nothing stays. -/
def override (p : Preferences) (options : List (Value × Value)) : Except OptionFault Preferences :=
  ofValue (.map (options.foldl (fun fields (k, v) =>
    match k, v with
    | _, .null => fields
    | .text name, v => Value.setField fields name v
    | _, _ => fields) p.toFields))

end Preferences

end CallerFirst
