import CallerFirst.Config.Preferences
import CallerFirst.Number.Integer

/-!
# The command line

Options may be shortened as long as they stay unambiguous, and may carry their value behind `=`.
Behind `--` everything is a path. Paths stand in one group. A value that is `--` itself is dropped,
and leaves its option empty.
-/

namespace CallerFirst

inductive Setting where
  | configPath
  | priorities
  | invocationStrategy
  | startpointStrategy
  | seed
  | report
  deriving DecidableEq

inductive Switch where
  | noBeforeAfter
  | clusterGetterSetter
  | clusterOverloaded
  | dryRun
  | random
  | noProgress
  | verbose
  | help
  deriving DecidableEq

inductive Flag where
  | setting (s : Setting)
  | switch (s : Switch)
  deriving DecidableEq

inductive Halt where
  | help
  | usage
  deriving DecidableEq

def Halt.exitCode : Halt → Nat
  | help => 0
  | usage => 2

inductive Given (α : Type) where
  | value (a : α)
  /-- The value was dropped. -/
  | empty

def Given.map (f : α → β) : Given α → Given β
  | value a => .value (f a)
  | empty => .empty

structure CommandLine where
  paths : List String := []
  configPath : Given String := .value "config/stepdown.yaml"
  priorities : Option (Given String) := none
  strategy : Option (Given Strategy) := none
  startpoints : Option (Given Startpoints) := none
  noBeforeAfter : Bool := false
  clusterGetterSetter : Bool := false
  clusterOverloaded : Bool := false
  dryRun : Bool := false
  random : Bool := false
  seed : Option (Given Int) := none
  report : Given String := .empty
  noProgress : Bool := false
  verbose : Bool := false

namespace CommandLine

def longFlags : List (String × Flag) :=
  [("--help", .switch .help),
   ("--config_path", .setting .configPath),
   ("--priorities", .setting .priorities),
   ("--invocation_strategy", .setting .invocationStrategy),
   ("--startpoint_strategy", .setting .startpointStrategy),
   ("--no_before_after", .switch .noBeforeAfter),
   ("--cluster_getter_setter", .switch .clusterGetterSetter),
   ("--cluster_overloaded", .switch .clusterOverloaded),
   ("--dry_run", .switch .dryRun),
   ("--random", .switch .random),
   ("--seed", .setting .seed),
   ("--report", .setting .report),
   ("--no_progress", .switch .noProgress),
   ("--verbose", .switch .verbose)]

inductive Word where
  | value (text : String)
  | flag (flag : Flag) (attached : Option String)
  | halt (halt : Halt)
  | unknown
  /-- Only values follow. -/
  | separator

def splitAttached (text : List Char) : List Char × Option (List Char) :=
  match text.dropWhile (· != '=') with
  | [] => (text, none)
  | _ :: attached => (text.takeWhile (· != '='), some attached)

/-- The text is over, a last line break aside. -/
def isOver (text : List Char) : Bool :=
  text == [] || text == ['\n']

def isNegativeNumber (text : List Char) : Bool :=
  let isDigit (c : Char) : Bool := (Text.digitValue? c).isSome
  match text with
  | '-' :: rest =>
    match rest.takeWhile isDigit, rest.dropWhile isDigit with
    | _, '.' :: places => places.head?.any isDigit && isOver (places.dropWhile isDigit)
    | whole, behind => !whole.isEmpty && isOver behind
  | _ => false

def flagsLike (start : List Char) : List Flag :=
  (longFlags.filter fun (name, _) => start.isPrefixOf name.toList).map Prod.snd

/-- What an argument is that starts with a minus sign and is no option in full. -/
def readLoose (text : List Char) : Word :=
  if isNegativeNumber text || text.contains ' ' then .value (String.ofList text) else .unknown

/-- What comes of the text behind `-h`: more letters of its kind change nothing, and nothing else can
stand there, also not as a value. -/
def helpLetters : List Char → Halt
  | [] => .help
  | '=' :: letters => if !letters.isEmpty && letters.all (· == 'h') then .help else .usage
  | letters => if letters.all (· == 'h') then .help else .usage

def readWord (text : String) : Except Halt Word :=
  let chars := text.toList
  let (name, attached) := splitAttached chars
  let attached := attached.map String.ofList
  match chars with
  | [] => .ok (.value text)
  | ['-'] => .ok (.value text)
  | '-' :: '-' :: _ =>
    match longFlags.lookup text, longFlags.lookup (String.ofList name), flagsLike name with
    | some flag, _, _ => .ok (.flag flag none)
    | none, some flag, _ => .ok (.flag flag attached)
    | none, none, [flag] => .ok (.flag flag attached)
    | none, none, [] => .ok (readLoose chars)
    | none, none, _ => .error .usage
  | '-' :: 'h' :: rest => .ok (.halt (helpLetters rest))
  | '-' :: _ => .ok (readLoose chars)
  | _ => .ok (.value text)

def readWords : List String → Except Halt (List Word)
  | [] => .ok []
  | "--" :: rest => .ok (.separator :: rest.map .value)
  | text :: rest => do
    let word ← readWord text
    return word :: (← readWords rest)

def readInt? (text : String) : Option Int :=
  (Integer.read? 10 text.toList).filter fun _ => Integer.digitCount text.toList ≤ Integer.digitLimit

def require (value : Option α) : Except Halt α :=
  match value with
  | some a => .ok a
  | none => .error .usage

def readGiven (f : String → Option α) : Given String → Except Halt (Given α)
  | .value text => do return .value (← require (f text))
  | .empty => .ok .empty

def set (c : CommandLine) (given : Given String) : Setting → Except Halt CommandLine
  | .configPath => .ok { c with configPath := given }
  | .priorities => .ok { c with priorities := some given }
  | .invocationStrategy => do return { c with strategy := some (← readGiven Strategy.ofName? given) }
  | .startpointStrategy => do
    return { c with startpoints := some (← readGiven Startpoints.ofName? given) }
  | .seed => do return { c with seed := some (← readGiven readInt? given) }
  | .report => .ok { c with report := given }

def switchOn (c : CommandLine) : Switch → Except Halt CommandLine
  | .noBeforeAfter => .ok { c with noBeforeAfter := true }
  | .clusterGetterSetter => .ok { c with clusterGetterSetter := true }
  | .clusterOverloaded => .ok { c with clusterOverloaded := true }
  | .dryRun => .ok { c with dryRun := true }
  | .random => .ok { c with random := true }
  | .noProgress => .ok { c with noProgress := true }
  | .verbose => .ok { c with verbose := true }
  | .help => .error .help

def valuesAhead : List Word → List String × List Word
  | .value text :: rest =>
    let (values, rest) := valuesAhead rest
    (text :: values, rest)
  | .separator :: rest => valuesAhead rest
  | rest => ([], rest)

/-- Works off the arguments. `surplus` says that some could not be used, which counts only in the
end. -/
def apply : Nat → Bool → CommandLine → List Word → Except Halt CommandLine
  | 0, _, _, _ => .error .usage
  | _ + 1, surplus, c, [] => if surplus || c.paths.isEmpty then .error .usage else .ok c
  | fuel + 1, surplus, c, word :: rest =>
    match word with
    | .flag (.switch s) none => do apply fuel surplus (← c.switchOn s) rest
    | .flag (.switch _) (some _) => .error .usage
    | .flag (.setting s) (some value) => do
      let given : Given String := if value == "--" then .empty else .value value
      apply fuel surplus (← c.set given s) rest
    | .flag (.setting s) none =>
      match rest with
      | .value value :: rest => do apply fuel surplus (← c.set (.value value) s) rest
      | _ => .error .usage
    | .halt halt => .error halt
    | .unknown => apply fuel true c rest
    | .value _ | .separator =>
      let (values, rest) := valuesAhead (word :: rest)
      if values.isEmpty || !c.paths.isEmpty then apply fuel true c rest
      else apply fuel surplus { c with paths := values } rest

def read (arguments : List String) : Except Halt CommandLine := do
  let words ← readWords arguments
  apply (words.length + 1) false {} words

end CommandLine

end CallerFirst
