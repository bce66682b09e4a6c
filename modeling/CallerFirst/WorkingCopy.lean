import CallerFirst.FileTree

/-!
# Working copies

The text of a file while it is worked on. It goes back into the file as a whole, or not at all.
-/

namespace CallerFirst

structure WorkingCopy where
  path : String
  dryRun : Bool
  /-- The text as it was read. -/
  stored : String
  buffer : String
  committed : Bool := false

inductive ReadFault where
  | file (fault : FileFault)
  | notText

def ReadFault.message : ReadFault → String
  | .file fault => fault.message
  | .notText => "<utf-8 decode error>"

namespace WorkingCopy

def checkOut (t : FileTree) (path : String) (dryRun : Bool) : Except ReadFault WorkingCopy :=
  match t.read path with
  | .error fault => .error (.file fault)
  | .ok content =>
    match String.fromUTF8? content with
    | some text => .ok { path, dryRun, stored := text, buffer := text }
    | none => .error .notText

def changed (c : WorkingCopy) : Bool :=
  c.buffer != c.stored

inductive CommitStep where
  | create
  | write
  | copyMode
  | replace

/-- Faults of steps that the files would allow, for want of space or of rights. A refused write also
stands for a text with lone surrogates, which no `String` has. -/
abbrev Refusals := CommitStep → Option FileFault

def Refusals.none : Refusals := fun _ => Option.none

def createTemporary (c : WorkingCopy) (names : Names) (refused : Refusals) (t : FileTree) :
    Except FileFault (Names × FileTree) :=
  match refused .create, t.temporaryBeside? names with
  | some fault, _ => .error fault
  | none, none => .error (.alreadyThere c.path)
  | none, some temporary => .ok (temporary, t.put temporary .empty)

/-- Writes the buffer into the temporary file, gives it the mode of the file, which has to be there
still, and puts it in its place. -/
def replaceFile (c : WorkingCopy) (names temporary : Names) (refused : Refusals) (t : FileTree) :
    Except FileFault Unit × FileTree :=
  match refused .write with
  | some fault => (.error fault, t)
  | none =>
    let t := t.put temporary c.buffer.toUTF8
    let missing := if t.isFree names then some (.missing c.path) else none
    match (refused .copyMode).or missing with
    | some fault => (.error fault, t)
    | none =>
      let directory := if t.isDirectory names then some (.isDirectory c.path) else none
      match (refused .replace).or directory with
      | some fault => (.error fault, t)
      | none => (.ok (), t.rename temporary names)

/-- Puts the buffer back into the file by way of a temporary one, if it was changed and this is no dry
run. A fault removes the temporary file. -/
def commit (c : WorkingCopy) (t : FileTree) (refused : Refusals := .none) :
    Except FileFault WorkingCopy × FileTree :=
  if !c.changed || c.dryRun then (.ok c, t)
  else
    match t.resolve c.path with
    | .error fault => (.error fault, t)
    | .ok names =>
      match c.createTemporary names refused t with
      | .error fault => (.error fault, t)
      | .ok (temporary, t) =>
        match c.replaceFile names temporary refused t with
        | (.ok (), t) => (.ok { c with committed := true }, t)
        | (.error fault, t) => (.error fault, t.remove temporary)

def discard (c : WorkingCopy) : WorkingCopy :=
  { c with buffer := c.stored }

structure Work (ε : Type) where
  buffer : String
  tree : FileTree
  fault : Option ε := none

inductive CloseFault (ε : Type) where
  | work (fault : ε)
  | file (fault : FileFault)

/-- Ends the work on a copy: a fault discards the buffer, otherwise it is committed. -/
def close (c : WorkingCopy) (w : Work ε) (refused : Refusals := .none) :
    WorkingCopy × FileTree × Option (CloseFault ε) :=
  let c := { c with buffer := w.buffer }
  match w.fault with
  | some fault => (c.discard, w.tree, some (.work fault))
  | none =>
    match c.commit w.tree refused with
    | (.ok c, t) => (c, t, none)
    | (.error fault, t) => (c, t, some (.file fault))

end WorkingCopy

end CallerFirst
