import CallerFirst.Config.Options
import CallerFirst.FileTree
import CallerFirst.Yaml.Reader
import CallerFirst.Yaml.Writer

/-!
# Preferences in files
-/

namespace CallerFirst

namespace Text

def unifyBreaks : List Char → List Char
  | [] => []
  | '\r' :: '\n' :: rest => '\n' :: unifyBreaks rest
  | '\r' :: rest => '\n' :: unifyBreaks rest
  | c :: rest => c :: unifyBreaks rest

end Text

inductive ConfigFault where
  | options (fault : OptionFault)
  | notText

namespace Preferences

/-- Preferences of the text of a file; an empty document leaves all as it is. -/
def ofYaml (path text : String) : Except OptionFault Preferences :=
  match Yaml.read (Text.unifyBreaks text.toList) with
  | .error .malformed => .error (.unreadableFile path)
  | .error fault => .error (.document fault)
  | .ok .null => .ok {}
  | .ok (.map entries) => ofValue (.map entries)
  | .ok _ => .error (.noMapping path)

def toYaml (p : Preferences) : String :=
  Yaml.write p.toFields

/-- The text that a file of preferences gets, unless a rank is too long to be written. -/
def save (p : Preferences) : Except OptionFault String :=
  if Category.all.all fun c => Integer.isWritable (p.categoryRanks.get c) then .ok p.toYaml
  else .error .longNumber

structure Saving where
  fault : Option OptionFault := none
  tree : FileTree

/-- Makes the directories of a file and empties it before the preferences are written to it. -/
def saveTo (p : Preferences) (t : FileTree) (path : String) : Except FileFault Saving := do
  let opened ← t.writeDeep path .empty
  match p.save with
  | .ok text => return { tree := ← opened.write path text.toUTF8 }
  | .error fault => return { fault := some fault, tree := opened }

/-- Preferences of a file; without the file they are the usual ones. -/
def load (t : FileTree) (path : String) : Except ConfigFault Preferences :=
  match t.read path with
  | .error _ => .ok {}
  | .ok content =>
    match String.fromUTF8? content with
    | some text => (ofYaml path text).mapError .options
    | none => .error .notText

/-- Writing the preferences and reading them gives them back. -/
def isStable (p : Preferences) : Bool :=
  match ofYaml "" p.toYaml with
  | .ok q => q == p
  | .error _ => false

end Preferences

end CallerFirst
