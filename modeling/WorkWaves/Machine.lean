import WorkWaves.Error
import WorkWaves.Logging.Filter
import WorkWaves.Settings.Sources
import WorkWaves.Text.Utf8

/-!
# The machine that commands work on

Files, an environment, a clock, what was printed, and programs that can be started. All but the programs is
at hand; what those do is a parameter, so what holds for all `Programs` holds whatever the programs do.
-/

namespace WorkWaves

/-- A program that is to be started. -/
structure Invocation where
  program : String
  args : List String
  /-- The directory in which it works. -/
  directory : String
  /-- The variables that are set for it alone. -/
  env : Environment := ∅
  deriving DecidableEq, Repr

namespace Invocation

/-- All texts that are handed on. -/
def texts (i : Invocation) : List String :=
  i.program :: i.directory :: i.args ++ i.env.entries.flatMap fun e => [e.1, e.2]

/-- A text with the character that ends a text cannot be handed on. -/
def isInvalid (i : Invocation) : Bool := i.texts.any fun t => t.toList.contains '\x00'

end Invocation

/-- How a program ended, and what it wrote. -/
structure ProcessEnd where
  /-- Nothing for a program that was killed. -/
  code : Option Int
  stdout : List UInt8 := []
  stderr : List UInt8 := []
  deriving DecidableEq, Repr

namespace ProcessEnd

def success (p : ProcessEnd) : Bool := p.code == some 0

def stdoutText (p : ProcessEnd) : String := Text.ofBytes p.stdout

def stderrText (p : ProcessEnd) : String := Text.ofBytes p.stderr

end ProcessEnd

/-- The programs that can be started. One that is started finds the files with its own directory as the
working directory, may change them, and may keep something for later. -/
structure Programs (μ : Type) where
  launch : Invocation → FileTree → μ → Except FileFault ProcessEnd × FileTree × μ

/-- What is written down, and where to. -/
structure Logging where
  filter : LogFilter := []
  console : Bool := false
  file : Option String := none
  deriving Repr

/-- A machine at some moment. -/
structure Machine (μ : Type) where
  programs : Programs μ
  /-- What the programs keep. -/
  kept : μ
  files : FileTree := {}
  environment : Environment := ∅
  now : Timestamp
  /-- The name for the next run. -/
  runId : String
  logging : Logging := {}
  /-- The pieces of work that are going on, the innermost first. -/
  spans : List LogSpan := []
  /-- Whether the user wants the run to stop. -/
  interrupted : Bool := false
  elapsedMs : Nat := 0
  /-- What was printed, the latest first. -/
  printed : List String := []
  /-- What was printed to the side, the latest first. -/
  complaints : List String := []

/-- A step of work on a machine. -/
abbrev Work (μ α : Type) := StateM (Machine μ) α

/-- A step of work that can fail; what was done before stays done. -/
abbrev Task (μ ε α : Type) := ExceptT ε (StateM (Machine μ)) α

namespace Machine

variable {μ : Type}

/-- The home directory of the user. -/
def home? (m : Machine μ) : Option String := m.environment.get? "HOME"

/-- The working directory. -/
def currentDirectory (m : Machine μ) : String := FileTree.pathOf m.files.here

/-- Adds a line to a file. -/
def append (m : Machine μ) (path line : String) : Machine μ :=
  match m.files.read path with
  | .error _ => m
  | .ok text =>
    match m.files.write path (text ++ line ++ "\n") with
    | .ok files => { m with files := files }
    | .error _ => m

/-- Writes a record down where it is wanted, as part of the work that is going on. -/
def record (m : Machine μ) (r : LogRecord) : Machine μ :=
  let r := m.spans.foldl LogRecord.within r
  if m.logging.filter.admits r then
    let line := m.now.text ++ " " ++ r.line
    let m := if m.logging.console then { m with complaints := line :: m.complaints } else m
    match m.logging.file with
    | some path => m.append path line
    | none => m
  else m

/-- Writes something down where it is wanted. -/
def log (level : LogLevel) (area : LogArea) (text : String) (fields : LogFields) (m : Machine μ) :
    Machine μ :=
  m.record { level := level, area := area, text := text, fields := fields }

/-- Does something in the course of a piece of work. -/
def during {α : Type} (s : LogSpan) (w : Work μ α) : Work μ α := fun m =>
  let (a, after) := w { m with spans := s :: m.spans }
  (a, { after with spans := m.spans })

def print (text : String) (m : Machine μ) : Machine μ := { m with printed := text :: m.printed }

def complain (text : String) (m : Machine μ) : Machine μ :=
  { m with complaints := text :: m.complaints }

/-- Starts a program and waits for its end. -/
def launch (i : Invocation) (m : Machine μ) : Except FileFault ProcessEnd × Machine μ :=
  if i.isInvalid then (.error .invalidText, m)
  else
    match m.files.directory i.directory with
    | .error e => (.error e, m)
    | .ok place =>
      let (result, files, kept) := m.programs.launch i { m.files with here := place } m.kept
      (result, { m with files := { files with here := m.files.here }, kept := kept })

end Machine

end WorkWaves
