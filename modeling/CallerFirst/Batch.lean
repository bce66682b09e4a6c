import CallerFirst.Config.Options
import CallerFirst.Json.Writer
import CallerFirst.Sorter
import CallerFirst.WorkingCopy

/-!
# Batches of files

A batch orders files one after the other, each in a working copy of its own, and keeps account of
what came of them. Files that cannot be ordered are noted as failures and left as they are.
-/

namespace CallerFirst

structure Metrics where
  seen : Nat := 0
  changed : Nat := 0
  unchanged : Nat := 0
  /-- Left as they are because a declaration does not fit the source. -/
  skipped : Nat := 0
  failed : Nat := 0
  methods : Nat := 0
  calls : Nat := 0
  deriving DecidableEq

namespace Metrics

def record (m : Metrics) (o : Outcome) : Metrics :=
  let m := { m with
    seen := m.seen + 1
    methods := m.methods + o.ordering.length
    calls := m.calls + o.edgeCount }
  if o.skipped.isSome then { m with skipped := m.skipped + 1 }
  else if o.changed then { m with changed := m.changed + 1 }
  else { m with unchanged := m.unchanged + 1 }

def recordFailure (m : Metrics) : Metrics :=
  { m with seen := m.seen + 1, failed := m.failed + 1 }

end Metrics

inductive UnitFault where
  | unread (fault : ReadFault)
  | unsorted (path : String) (fault : SortFault)
  | unwritten (fault : FileFault)

namespace UnitFault

/-- Text of a fault that is noted as a failure; others end the batch. -/
def message? : UnitFault → Option String
  | unread .notText => some ReadFault.notText.message
  | unread (.file fault) | unwritten fault => if fault.isLookup then some fault.message else none
  | unsorted path (.source fault) => fault.message?.map (Java.Fault.located path)
  | unsorted _ (.tree _) | unsorted _ .noSeed => none

end UnitFault

namespace Sorter

def sortFile (s : Sorter) (p : Preferences) (dryRun : Bool) (t : FileTree) (path : String) :
    Except UnitFault Outcome × FileTree :=
  match WorkingCopy.checkOut t path dryRun with
  | .error fault => (.error (.unread fault), t)
  | .ok copy =>
    match s.sortSource p (some path) copy.buffer with
    | .error fault => (.error (.unsorted path fault), t)
    | .ok outcome =>
      match ({ copy with buffer := outcome.sortedSource }).commit t with
      | (.error fault, t) => (.error (.unwritten fault), t)
      | (.ok copy, t) => (.ok { outcome with written := copy.committed }, t)

end Sorter

structure Batch where
  preferences : Preferences := {}
  sorter : Sorter := .preferred
  dryRun : Bool := false
  metrics : Metrics := {}
  outcomes : List Outcome := []
  /-- Paths that failed, with the text of their last failure. -/
  failures : List (String × String) := []
  interrupted : Bool := false
  begun : Nat := 0
  /-- The file during which the user interrupts, counted from one. -/
  interruptAt : Option Nat := none

inductive UnitEnd where
  | ordered
  | failed
  | interrupted
  /-- A fault that is not noted as a failure. -/
  | broken (fault : UnitFault)

namespace Batch

def hasFailures (b : Batch) : Bool :=
  !b.failures.isEmpty

def addOutcome (b : Batch) (o : Outcome) : Batch :=
  { b with outcomes := b.outcomes ++ [o], metrics := b.metrics.record o }

def addFailure (b : Batch) (path message : String) : Batch :=
  { b with
    failures :=
      if b.failures.any (·.1 == path) then
        b.failures.map fun f => if f.1 = path then (path, message) else f
      else b.failures ++ [(path, message)]
    metrics := b.metrics.recordFailure }

def sortOne (b : Batch) (t : FileTree) (path : String) : UnitEnd × Batch × FileTree :=
  let b := { b with begun := b.begun + 1 }
  if b.interruptAt = some b.begun then (.interrupted, b, t)
  else
    match b.sorter.sortFile b.preferences b.dryRun t path with
    | (.ok outcome, t) => (.ordered, b.addOutcome outcome, t)
    | (.error fault, t) =>
      match fault.message? with
      | some message => (.failed, b.addFailure path message, t)
      | none => (.broken fault, b, t)

/-- How a run ends: with the number of files that were worked on and of those that failed, or by a
fault. -/
structure Progress where
  files : Nat
  processed : Nat := 0
  failed : Nat := 0
  fault : Option UnitFault := none

def sortAll (progress : Progress) : Batch → FileTree → List String → Progress × Batch × FileTree
  | b, t, [] => (progress, b, t)
  | b, t, path :: rest =>
    match b.sortOne t path with
    | (.ordered, b, t) => sortAll { progress with processed := progress.processed + 1 } b t rest
    | (.failed, b, t) =>
      sortAll
        { progress with processed := progress.processed + 1, failed := progress.failed + 1 } b t rest
    | (.interrupted, b, t) => (progress, { b with interrupted := true }, t)
    | (.broken fault, b, t) => ({ progress with fault := some fault }, b, t)

def sortPaths (b : Batch) (t : FileTree) (paths : List String) : Progress × Batch × FileTree :=
  let files := t.sources paths
  sortAll { files := files.length } b t files

/-! ### Reports -/

def texts (signatures : List Signature) : Value :=
  .list (signatures.map fun s => .text s.key)

def record (fields : List (String × Value)) : Value :=
  .map (fields.map fun (key, v) => (.text key, v))

def clusterReport (c : Cluster Signature) : Value :=
  record [("main", .text c.main.key), ("members", texts c.signatures)]

def outcomeReport (o : Outcome) : Value :=
  record [
    ("path", o.path.elim .null .text),
    ("changed", .bool o.changed),
    ("written", .bool o.written),
    ("skipped", o.skipped.elim .null fun reason => .text reason.message),
    ("ordering", texts o.ordering),
    ("call_graph", .map (o.calls.map fun (s, callees) => (.text s.key, texts callees))),
    ("clusters", .list (o.clusters.map clusterReport))]

def metricsReport (m : Metrics) : Value :=
  record [
    ("units", record [
      ("seen", .int m.seen),
      ("changed", .int m.changed),
      ("unchanged", .int m.unchanged),
      ("skipped", .int m.skipped),
      ("failed", .int m.failed)]),
    ("call_graph", record [("methods", .int m.methods), ("call_edges", .int m.calls)])]

def isRandom (b : Batch) : Bool :=
  match b.sorter with
  | .preferred => false
  | .random _ => true

def report (b : Batch) : Value :=
  record [
    ("preferences", .map b.preferences.toFields),
    ("dry_run", .bool b.dryRun),
    ("random_order", .bool b.isRandom),
    ("interrupted", .bool b.interrupted),
    ("metrics", metricsReport b.metrics),
    ("units", .list (b.outcomes.map outcomeReport)),
    ("failures", .list (b.failures.map fun (path, error) =>
      record [("path", .text path), ("error", .text error)]))]

inductive RunFault where
  | unit (fault : UnitFault)
  | report (fault : FileFault)
  /-- A number of the report is too long to be written. -/
  | longNumber
  /-- A failure was noted in words that have no bytes. -/
  | noBytes

def reportFault? (b : Batch) : Option RunFault :=
  if b.report.hasLongNumber then some .longNumber
  else if b.failures.any fun (_, error) => Text.holdsHalf error then some .noBytes
  else none

structure Run where
  batch : Batch
  tree : FileTree
  progress : Progress
  fault : Option RunFault := none

def run (b : Batch) (t : FileTree) (paths : List String) (reportPath : String) : Run :=
  let (progress, batch, tree) := b.sortPaths t paths
  match progress.fault with
  | some fault => { batch, tree, progress, fault := some (.unit fault) }
  | none =>
    if reportPath.isEmpty then { batch, tree, progress }
    else
      match tree.writeDeep reportPath (Json.write .indented batch.report).toUTF8 with
      | .ok tree =>
        { batch, tree, progress, fault := batch.reportFault? }
      | .error fault => { batch, tree, progress, fault := some (.report fault) }

end Batch

end CallerFirst
