import CallerFirst.Config.Value
import CallerFirst.Sorting
import CallerFirst.Text.Split

/-!
# Trees of files

A tree of files with their bytes. Paths are texts that start at the root with a slash, and at the
home directory without; `resolve` follows one name by name, and every name but the last has to lead
to a directory.
-/

namespace CallerFirst

/-- Names from the root of a tree on. -/
abbrev Names := List String

structure FileTree where
  files : List (Names × ByteArray) := []
  /-- Directories, besides those that files stand in. -/
  directories : List Names := []
  /-- The directory that paths start from. -/
  home : Names := []

inductive FileFault where
  | missing (path : String)
  | isDirectory (path : String)
  | notDirectory (path : String)
  | alreadyThere (path : String)
  /-- A name of the path, or the path, is longer than names and paths can be. -/
  | tooLong (path : String)
  | nullInPath
  /-- The path of a directory that is to be made holds one. -/
  | nullInDirectory
  deriving DecidableEq

namespace FileFault

def message : FileFault → String
  | missing path => "[Errno 2] No such file or directory: " ++ Value.quoted path
  | isDirectory path => "[Errno 21] Is a directory: " ++ Value.quoted path
  | notDirectory path => "[Errno 20] Not a directory: " ++ Value.quoted path
  | alreadyThere path => "[Errno 17] File exists: " ++ Value.quoted path
  | tooLong path => "[Errno 36] File name too long: " ++ Value.quoted path
  | nullInPath => "embedded null byte"
  | nullInDirectory => "mkdir: embedded null character in path"

def isLookup : FileFault → Bool
  | nullInPath | nullInDirectory => false
  | _ => true

end FileFault

namespace FileTree

def content? (t : FileTree) (names : Names) : Option ByteArray :=
  t.files.lookup names

def isFile (t : FileTree) (names : Names) : Bool :=
  t.files.any (·.1 == names)

def isInner (t : FileTree) (names : Names) : Bool :=
  (t.files.map Prod.fst ++ t.directories).any fun other =>
    names.isPrefixOf other && names.length < other.length

def isDirectory (t : FileTree) (names : Names) : Bool :=
  names.isPrefixOf t.home || t.directories.contains names || t.isInner names

def parts (path : String) : List String :=
  (Text.split '/' path.toList).map String.ofList

def nameLimit : Nat := 255

def pathLimit : Nat := 4095

def step (t : FileTree) (path : String) (here : Names) (name : String) : Except FileFault Names :=
  if t.isDirectory here then
    if name == "" || name == "." then .ok here
    else if name == ".." then .ok here.dropLast
    else if nameLimit < name.utf8ByteSize then .error (.tooLong path)
    else .ok (here ++ [name])
  else if t.isFile here then .error (.notDirectory path)
  else .error (.missing path)

def origin (t : FileTree) (path : String) : Names :=
  if path.toList.head? == some '/' then [] else t.home

/-- Follows a path. The names it leads to need not exist; the empty path leads nowhere. -/
def resolve (t : FileTree) (path : String) : Except FileFault Names :=
  if path.toList.contains '\x00' then .error .nullInPath
  else if path.isEmpty then .error (.missing path)
  else if pathLimit < path.utf8ByteSize then .error (.tooLong path)
  else (parts path).foldlM (t.step path) (t.origin path)

def read (t : FileTree) (path : String) : Except FileFault ByteArray := do
  let names ← t.resolve path
  if t.isDirectory names then throw (.isDirectory path)
  match t.content? names with
  | some content => return content
  | none => throw (.missing path)

/-- Sets the bytes of a file; a new file goes to the end. -/
def put (t : FileTree) (names : Names) (content : ByteArray) : FileTree :=
  { t with
    files :=
      if t.isFile names then t.files.map fun f => if f.1 = names then (names, content) else f
      else t.files ++ [(names, content)] }

def write (t : FileTree) (path : String) (content : ByteArray) : Except FileFault FileTree := do
  let names ← t.resolve path
  if t.isDirectory names then throw (.isDirectory path)
  return t.put names content

/-- Removes a file; the directory it was in stays. -/
def remove (t : FileTree) (names : Names) : FileTree :=
  let left := { t with files := t.files.filter (·.1 ≠ names) }
  if !t.isFile names || left.isDirectory names.dropLast then left
  else { left with directories := t.directories ++ [names.dropLast] }

def rename (t : FileTree) (source target : Names) : FileTree :=
  match t.content? source with
  | some content => (t.remove source).put target content
  | none => t

def isFree (t : FileTree) (names : Names) : Bool :=
  !t.isFile names && !t.isDirectory names

def temporaryName (number : Nat) : String :=
  ".stepdown-" ++ toString number ++ ".tmp"

/-- Free names for a temporary file beside another file. Which of them are taken makes no difference,
since no temporary file stays. -/
def temporaryBeside? (t : FileTree) (names : Names) : Option Names :=
  ((List.range (t.files.length + t.directories.length + 3)).map fun number =>
    names.dropLast ++ [temporaryName number]).find? fun temporary =>
      t.isFree temporary && temporary != names

def makeDirectories (t : FileTree) (path : String) : Except FileFault FileTree := do
  if path.toList.contains '\x00' then throw .nullInDirectory
  if pathLimit < path.utf8ByteSize then throw (.tooLong path)
  let (t, here) ← (parts path).foldlM (fun ((t, here) : FileTree × Names) name => do
    let next ← t.step path here name
    return if t.isDirectory next || t.isFile next then (t, next)
      else ({ t with directories := t.directories ++ [next] }, next)) (t, t.origin path)
  if t.isFile here then throw (.alreadyThere path)
  return t

/-- The path of the directory that a file stands in; empty for a bare name. -/
def directoryOf (path : String) : String :=
  let head := path.toList.reverse.dropWhile (· != '/')
  match head.dropWhile (· == '/') with
  | [] => String.ofList head
  | behind => String.ofList behind.reverse

def writeDeep (t : FileTree) (path : String) (content : ByteArray) : Except FileFault FileTree := do
  let directory := directoryOf path
  let t ← if directory.isEmpty then pure t else t.makeDirectories directory
  t.write path content

def sortedNames (names : List String) : List String :=
  Sorting.sort (fun a b => a < b) names.eraseDups

def nameBelow? (directory other : Names) : Option String :=
  if directory.isPrefixOf other then other[directory.length]? else none

def filesIn (t : FileTree) (directory : Names) : List String :=
  sortedNames (t.files.filterMap fun (names, _) =>
    if names.length = directory.length + 1 then nameBelow? directory names else none)

def directoriesIn (t : FileTree) (directory : Names) : List String :=
  sortedNames ((t.files.map Prod.fst ++ t.directories).filterMap fun other =>
    (nameBelow? directory other).filter fun name => t.isDirectory (directory ++ [name]))

def join (path name : String) : String :=
  if path.isEmpty || path.toList.getLast? == some '/' then path ++ name else path ++ "/" ++ name

def sourceEnding : String := ".java"

def isSource (name : String) : Bool :=
  sourceEnding.toList.isSuffixOf name.toList

def sourcesBelow (t : FileTree) : (depth : Nat) → (path : String) → (directory : Names) → List String
  | 0, _, _ => []
  | depth + 1, path, directory =>
    ((t.filesIn directory).filter isSource).map (join path) ++
      (t.directoriesIn directory).flatMap fun name =>
        t.sourcesBelow depth (join path name) (directory ++ [name])

def depth (t : FileTree) : Nat :=
  (t.files.map Prod.fst ++ t.directories).foldl (fun n names => max n names.length) 0

/-- What a path stands for: a file for itself, a directory for the sources below it, and anything
else for nothing. -/
def sourcesAt (t : FileTree) (path : String) : List String :=
  match t.resolve path with
  | .error _ => []
  | .ok names =>
    if t.isDirectory names then t.sourcesBelow (t.depth + 1) path names
    else if t.isFile names then [path]
    else []

def sources (t : FileTree) (paths : List String) : List String :=
  (paths.flatMap t.sourcesAt).eraseDups

end FileTree

end CallerFirst
