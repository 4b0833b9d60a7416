/-!
# Records of what is done

What is written down besides the events of a run, for those who want to know more: which part of the program
writes, how much it matters, what is told, and in the course of which pieces of work.
-/

namespace WorkWaves

/-- How much a record matters, from what matters most. -/
inductive LogLevel where
  | error
  | warn
  | info
  | debug
  | trace
  deriving DecidableEq, Repr

namespace LogLevel

def rank : LogLevel → Nat
  | error => 1
  | warn => 2
  | info => 3
  | debug => 4
  | trace => 5

def text : LogLevel → String
  | error => "ERROR"
  | warn => "WARN"
  | info => "INFO"
  | debug => "DEBUG"
  | trace => "TRACE"

end LogLevel

/-- The parts of the program that write records. -/
inductive LogArea where
  | manifest
  | graph
  | contention
  | planning
  | run
  | merge
  | state
  | git
  | worktree
  | fixer
  | planCommand
  | runCommand
  deriving DecidableEq, Repr

/-- The name of a part, as filters use it. -/
def LogArea.text : LogArea → String
  | manifest => "wavesmith_core::input::manifest"
  | graph => "wavesmith_core::graph::graph"
  | contention => "wavesmith_core::contention::refine"
  | planning => "wavesmith_core::executor::plan"
  | run => "wavesmith_core::executor::engine"
  | merge => "wavesmith_core::merge::coordinator"
  | state => "wavesmith_core::state::store"
  | git => "wavesmith_plugins::git::runner"
  | worktree => "wavesmith_plugins::workspace::worktree"
  | fixer => "wavesmith_plugins::fixer::command"
  | planCommand => "wavesmith_cli::commands::plan"
  | runCommand => "wavesmith_cli::commands::run"

/-- What a field of a record holds. -/
inductive LogValue where
  | count (n : Nat)
  | flag (b : Bool)
  | text (s : String)
  deriving DecidableEq, Repr

def LogValue.shown : LogValue → String
  | count n => toString n
  | flag b => if b then "true" else "false"
  | text s => s

abbrev LogFields := List (String × LogValue)

/-- Fields as they are written. -/
def LogFields.shown (fields : LogFields) : String :=
  " ".intercalate (fields.map fun f => f.1 ++ "=" ++ f.2.shown)

/-- A piece of work in the course of which records are written. All of them matter as infos do. -/
structure LogSpan where
  name : String
  area : LogArea
  fields : LogFields := []
  deriving DecidableEq, Repr

/-- Something to be written down. -/
structure LogRecord where
  level : LogLevel
  area : LogArea
  text : String
  fields : LogFields := []
  /-- The pieces of work that it is part of, the innermost first. -/
  spans : List LogSpan := []
  deriving DecidableEq, Repr

namespace LogRecord

/-- A record as part of a larger piece of work. -/
def within (r : LogRecord) (s : LogSpan) : LogRecord := { r with spans := r.spans ++ [s] }

/-- The names of all fields; the text is one too. -/
def fieldNames (r : LogRecord) : List String := "message" :: r.fields.map (·.1)

/-- A record as a line. -/
def line (r : LogRecord) : String :=
  let spans := ":".intercalate (r.spans.reverse.map fun s => s.name ++ "\x7b" ++ s.fields.shown ++ "\x7d")
  let course := if r.spans.isEmpty then "" else spans ++ ": "
  let fields := if r.fields.isEmpty then "" else " " ++ r.fields.shown
  r.level.text ++ " " ++ course ++ r.area.text ++ ": " ++ r.text ++ fields

end LogRecord

end WorkWaves
