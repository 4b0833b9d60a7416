import WorkWaves.Text.Number
import WorkWaves.Settings.Basic

/-!
# The command line

A command with its options, which are words with two hyphens in front. An option takes the word behind it or
what stands behind an equals sign. Of several faults the one counts that shows first when the words are read
from left to right; a value is looked at when the next option comes or the words end.
-/

namespace WorkWaves

/-- What `plan` is to do. -/
structure PlanArguments where
  items : String
  repo : Option String := none
  deriving DecidableEq, Repr

/-- What `run` and `resume` are to do. -/
structure RunArguments where
  items : String
  maxWorkers : Option Nat := none
  timeoutSecs : Option Nat := none
  repo : Option String := none
  noProgress : Bool := false
  deriving DecidableEq, Repr

inductive Command where
  | plan (a : PlanArguments)
  | run (a : RunArguments)
  | resume (a : RunArguments)
  deriving DecidableEq, Repr

/-- What a command line says. -/
structure Arguments where
  config : Option String
  command : Command
  deriving DecidableEq, Repr

/-- What help can be asked for. -/
inductive HelpTopic where
  | program
  | plan
  | run
  | resume
  | help
  deriving DecidableEq, Repr

/-- The topic of a command, the one that tells about commands among them. -/
def HelpTopic.ofCommand? : String → Option HelpTopic
  | "plan" => some plan
  | "run" => some run
  | "resume" => some resume
  | "help" => some help
  | _ => none

/-- Why a command line does not lead to a command. -/
inductive UsageFault where
  /-- Help is asked for. -/
  | help (topic : HelpTopic)
  /-- The version is asked for. -/
  | version
  | nothingAsked
  | missingCommand
  | unknownCommand
  | unknownArgument
  | missingArgument
  | missingValue
  | badValue
  | needlessValue
  | repeated
  deriving DecidableEq, Repr

namespace Arguments

/-- What an option takes, or what it is for. -/
inductive OptionKind where
  | path
  | number
  | flag
  | help
  | version
  deriving DecidableEq, Repr

def OptionKind.takesValue : OptionKind → Bool
  | path | number => true
  | flag | help | version => false

/-- The options that may stand at a place, and the commands. -/
structure Grammar where
  topic : HelpTopic
  options : List (String × OptionKind)
  letters : List (Char × OptionKind) := [('h', .help)]
  commands : List String := []

def mainGrammar : Grammar where
  topic := .program
  options := [("config", .path), ("help", .help), ("version", .version)]
  letters := [('h', .help), ('V', .version)]
  commands := ["plan", "run", "resume", "help"]

def planGrammar : Grammar where
  topic := .plan
  options := [("items", .path), ("repo", .path), ("config", .path), ("help", .help)]

def runGrammar (topic : HelpTopic) : Grammar where
  topic := topic
  options := [("items", .path), ("max-workers", .number), ("timeout", .number), ("repo", .path),
    ("no-progress", .flag), ("config", .path), ("help", .help)]

/-- What was read so far: values by option, and an option whose value was not looked at yet. -/
structure Reading where
  given : List (String × String) := []
  pending : Option (String × OptionKind × Option String) := none

namespace Reading

/-- Takes a value for an option; no option is given twice. -/
def accept (r : Reading) (name : String) (kind : OptionKind) (value : String) :
    Except UsageFault Reading :=
  if (r.given.lookup name).isSome then .error .repeated
  else
    let r := { r with given := r.given ++ [(name, value)] }
    match kind with
    | .path => if value.isEmpty then .error .missingValue else .ok r
    | .number =>
      match Text.number value with
      | .ok _ => .ok r
      | .error _ => .error .badValue
    | .flag | .help | .version => .ok r

/-- Looks at the value that was not looked at yet. -/
def settle (r : Reading) : Except UsageFault Reading :=
  match r.pending with
  | none => .ok r
  | some (_, _, none) => .error .missingValue
  | some (name, kind, some value) => { r with pending := none }.accept name kind value

/-- The option that the next word belongs to. -/
def hungry? (r : Reading) : Option (String × OptionKind) :=
  match r.pending with
  | some (name, kind, none) => some (name, kind)
  | _ => none

/-- Reads an option of a kind that takes no value. -/
def bare (r : Reading) (g : Grammar) (name : String) : OptionKind → Except UsageFault Reading
  | .help => do
    let _ ← r.settle
    .error (.help g.topic)
  | .version => do
    let _ ← r.settle
    .error .version
  | kind => do (← r.settle).accept name kind ""

/-- Reads an option with what stands behind an equals sign. -/
def option (r : Reading) (g : Grammar) (name : String) (value : Option String) :
    Except UsageFault Reading :=
  match g.options.lookup name, value with
  | none, _ => .error .unknownArgument
  | some kind, some v =>
    if kind.takesValue then do (← r.settle).accept name kind v else .error .needlessValue
  | some kind, none =>
    if kind.takesValue then do return { ← r.settle with pending := some (name, kind, none) }
    else r.bare g name kind

/-- Reads a word with one hyphen in front: only its first letter counts, for it ends the reading. -/
def letter (r : Reading) (g : Grammar) (c : Char) : Except UsageFault Reading :=
  match g.letters.lookup c with
  | some kind => r.bare g (String.singleton c) kind
  | none => .error .unknownArgument

end Reading

/-- What a word is by its hyphens. -/
inductive Word where
  | escape
  | option (name : String) (value : Option String)
  | letters (c : Char)
  | plain

def word (a : String) : Word :=
  match a.toList with
  | ['-', '-'] => .escape
  | '-' :: '-' :: r =>
    let name := String.ofList (r.takeWhile (· != '='))
    match r.dropWhile (· != '=') with
    | [] => .option name none
    | _ :: value => .option name (some (String.ofList value))
  | '-' :: c :: _ => .letters c
  | _ => .plain

/-- The fault of a word that stands where none may stand. -/
def Grammar.stray (g : Grammar) : UsageFault :=
  if g.commands.isEmpty then .unknownArgument else .unknownCommand

/-- The fault of the words behind a double hyphen. -/
def Grammar.afterEscape (g : Grammar) (r : Reading) :
    List String → Except UsageFault (Reading × Option (String × List String))
  | [] => .ok (r, none)
  | a :: _ => .error (if g.commands.contains a then .unknownArgument else g.stray)

/-- Reads words up to a command, and tells the command with the words behind it. -/
def scan (g : Grammar) : List String → Reading → Except UsageFault (Reading × Option (String × List String))
  | [], r => .ok (r, none)
  | a :: rest, r =>
    if r.hungry?.isNone && g.commands.contains a then .ok (r, some (a, rest))
    else
      match word a, r.hungry? with
      | .escape, _ => g.afterEscape r rest
      | .option name value, _ => do scan g rest (← r.option g name value)
      | .letters c, _ => do scan g rest (← r.letter g c)
      | .plain, some (name, kind) => scan g rest { r with pending := some (name, kind, some a) }
      | .plain, none => .error g.stray

/-- The values of the options of a command. -/
def values (g : Grammar) (words : List String) : Except UsageFault (List (String × String)) := do
  let (r, _) ← scan g words {}
  let r ← r.settle
  if (r.given.lookup "items").isNone then .error .missingArgument
  return r.given

/-- The number that an option says. -/
def numberIn (given : List (String × String)) (name : String) : Option Nat :=
  (given.lookup name).bind fun v => (Text.number v).toOption

/-- Reads the words behind a command; tells also the file of settings that they name. -/
def readCommand (name : String) (words : List String) : Except UsageFault (Option String × Command) :=
  if name == "help" then
    match words with
    | [] => .error (.help .program)
    | [a] => .error ((HelpTopic.ofCommand? a).elim .unknownCommand .help)
    | _ => .error .unknownCommand
  else if name == "plan" then do
    let given ← values planGrammar words
    return (given.lookup "config", .plan ⟨(given.lookup "items").getD "", given.lookup "repo"⟩)
  else do
    let given ← values (runGrammar (if name == "resume" then .resume else .run)) words
    let a : RunArguments :=
      { items := (given.lookup "items").getD ""
        maxWorkers := numberIn given "max-workers"
        timeoutSecs := numberIn given "timeout"
        repo := given.lookup "repo"
        noProgress := (given.lookup "no-progress").isSome }
    return (given.lookup "config", if name == "resume" then .resume a else .run a)

/-- Reads the words behind the name of the program. -/
def ofWords (words : List String) : Except UsageFault Arguments := do
  let (r, found) ← scan mainGrammar words {}
  match found with
  | none =>
    let r ← r.settle
    .error (if r.given.isEmpty then .nothingAsked else .missingCommand)
  | some (name, rest) =>
    let (config, c) ← readCommand name rest
    let r ← r.settle
    return ⟨config.or (r.given.lookup "config"), c⟩

end Arguments

/-- The settings with what the command line says instead. -/
def RunArguments.override (a : RunArguments) (s : Settings) : Settings :=
  { s with
    scheduler := { s.scheduler with
      maxWorkers := a.maxWorkers.getD s.scheduler.maxWorkers
      workerTimeoutSecs := a.timeoutSecs.getD s.scheduler.workerTimeoutSecs
      progressBar := s.scheduler.progressBar && !a.noProgress } }

end WorkWaves
