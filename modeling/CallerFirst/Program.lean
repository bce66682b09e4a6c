import CallerFirst.Batch
import CallerFirst.CommandLine
import CallerFirst.Config.File

/-!
# The program

What a command line does to a tree of files, and what it says.
-/

namespace CallerFirst

namespace CommandLine

def overrides (c : CommandLine) : List (Value × Value) :=
  let text (given : Option (Given String)) : Value :=
    match given with
    | none => .null
    | some (.value s) => .text s
    | some .empty => .list []
  let flag (on : Bool) (value : Bool) : Value := if on then .bool value else .null
  [(.text "ordering_priorities", text c.priorities),
   (.text "invocation_strategy", text (c.strategy.map (·.map (·.name)))),
   (.text "startpoint_strategy", text (c.startpoints.map (·.map (·.name)))),
   (.text "respect_before_after", flag c.noBeforeAfter false),
   (.text "cluster_getter_setter", flag c.clusterGetterSetter true),
   (.text "cluster_overloaded", flag c.clusterOverloaded true)]

def preferences (c : CommandLine) (t : FileTree) : Except ConfigFault Preferences := do
  let p ←
    match c.configPath with
    | .value path => Preferences.load t path
    | .empty => .error (.options .wrongType)
  (p.override c.overrides).mapError .options

/-- The seed of random order: `entropy`, unless there is one on the command line. -/
def seedOr (c : CommandLine) (entropy : Int) : Option Int :=
  match c.seed with
  | none => some entropy
  | some (.value seed) => some seed
  | some .empty => none

def batch (c : CommandLine) (p : Preferences) (entropy : Int) : Batch :=
  { preferences := p
    sorter := if c.random then .random (c.seedOr entropy) else .preferred
    dryRun := c.dryRun }

def reportPath (c : CommandLine) : String :=
  match c.report with
  | .value path => path
  | .empty => ""

end CommandLine

namespace Program

structure Finish where
  exitCode : Nat
  output : List String := []
  errors : List String := []
  tree : FileTree

inductive End where
  | halted (halt : Halt)
  | misconfigured (fault : ConfigFault)
  | broken (fault : Batch.RunFault) (tree : FileTree)
  | finished (finish : Finish)

def rule : String :=
  String.ofList (List.replicate 60 '=')

def progressLines (dryRun : Bool) (p : Batch.Progress) : List String :=
  ["StepDown Method Sorting" ++ (if dryRun then " (dry run)" else ""),
   "Processing " ++ toString p.files ++ " compilation units",
   "Method Sorting Complete!",
   "Total units processed: " ++ toString p.processed ++ "/" ++ toString p.files] ++
  if p.failed > 0 then ["Failed units: " ++ toString p.failed] else []

def summaryLines (b : Batch) (report : String) : List String :=
  [rule,
   "StepDown Completed" ++ (if b.interrupted then " (interrupted)" else ""),
   rule,
   "Sorted " ++ toString b.metrics.seen ++ " compilation units, " ++ toString b.metrics.changed ++
     " changed"] ++
  (if b.hasFailures then [toString b.metrics.failed ++ " units failed"] else []) ++
  (if report.isEmpty then [] else ["Report saved to: " ++ report]) ++
  [rule]

def perform (c : CommandLine) (p : Preferences) (entropy : Int) (t : FileTree) : End :=
  let run := (c.batch p entropy).run t c.paths c.reportPath
  match run.fault with
  | some fault => .broken fault run.tree
  | none =>
    .finished
      { exitCode := if run.batch.hasFailures || run.batch.interrupted then 1 else 0
        output := (if c.noProgress then [] else progressLines c.dryRun run.progress) ++
          summaryLines run.batch c.reportPath
        tree := run.tree }

def run (arguments : List String) (entropy : Int) (t : FileTree) : End :=
  match CommandLine.read arguments with
  | .error halt => .halted halt
  | .ok c =>
    match c.preferences t with
    | .ok p => perform c p entropy t
    | .error (.options fault) =>
      match fault.message? with
      | some message =>
        .finished { exitCode := 2, errors := ["Invalid preferences: " ++ message], tree := t }
      | none => .misconfigured (.options fault)
    | .error .notText => .misconfigured .notText

end Program

end CallerFirst
