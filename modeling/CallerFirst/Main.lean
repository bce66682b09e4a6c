import CallerFirst.Program

/-!
# The command line program

Reads what a command line is about into a tree of files, runs the program on it, and writes back
what has changed.
-/

namespace CallerFirst

namespace FileTree

def namesOf (t : FileTree) (path : String) : Names :=
  (parts path).foldl (fun here name =>
    if name == "" || name == "." then here
    else if name == ".." then here.dropLast
    else here ++ [name]) (t.origin path)

def pathOf (names : Names) : String :=
  "/" ++ String.intercalate "/" names

def changesFrom (old new : FileTree) : List (Names × ByteArray) :=
  new.files.filter fun (names, content) => (old.content? names).all (·.data != content.data)

/-- Adds the sources below a directory; linked directories are not entered. -/
partial def loadBelow (t : FileTree) (directory : Names) : IO FileTree := do
  let place : IO.FS.DirEntry := { root := pathOf directory, fileName := "" }
  let mut t := { t with directories := t.directories ++ [directory] }
  for entry in ← place.root.readDir do
    let names := directory ++ [entry.fileName]
    if ← entry.path.isDir then
      if (← entry.path.symlinkMetadata).type matches .dir then
        t ← t.loadBelow names
    else if isSource entry.fileName then
      t := t.put names (← IO.FS.readBinFile entry.path)
  return t

def load (t : FileTree) (path : String) : IO FileTree := do
  let names := t.namesOf path
  let place : IO.FS.DirEntry := { root := pathOf names, fileName := "" }
  if ← place.root.isDir then t.loadBelow names
  else if ← place.root.pathExists then return t.put names (← IO.FS.readBinFile place.root)
  else return t

def save (files : List (Names × ByteArray)) : IO Unit := do
  for (names, content) in files do
    IO.FS.createDirAll (pathOf names.dropLast)
    IO.FS.writeBinFile (pathOf names) content

end FileTree

namespace Program

def usage : String :=
  "usage: callerfirst [options] path [path ...]\noptions: " ++
    String.intercalate " " (CommandLine.longFlags.map Prod.fst)

def treeFor (arguments : List String) : IO FileTree := do
  let here := (← IO.currentDir).toString
  let t : FileTree := { home := FileTree.namesOf {} here }
  match CommandLine.read arguments with
  | .error _ => return t
  | .ok c =>
    let config := match c.configPath with
      | .value path => [path]
      | .empty => []
    (config ++ c.paths).foldlM FileTree.load t

def close (before : FileTree) : End → IO UInt32
  | .halted halt => do
    IO.println usage
    return halt.exitCode.toUInt32
  | .misconfigured (.options _) => do
    IO.eprintln "Invalid preferences"
    return 2
  | .misconfigured .notText => do
    IO.eprintln "Invalid preferences: not UTF-8"
    return 2
  | .broken _ tree => do
    FileTree.save (before.changesFrom tree)
    IO.eprintln "A file could not be worked on"
    return 1
  | .finished f => do
    FileTree.save (before.changesFrom f.tree)
    f.errors.forM IO.eprintln
    f.output.forM IO.println
    return f.exitCode.toUInt32

end Program

end CallerFirst

def main (arguments : List String) : IO UInt32 := do
  let tree ← CallerFirst.Program.treeFor arguments
  let entropy ← IO.rand 0 0xffffffffffffffff
  CallerFirst.Program.close tree (CallerFirst.Program.run arguments entropy tree)
