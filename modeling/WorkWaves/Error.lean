import WorkWaves.Graph.Basic
import WorkWaves.State.Store

/-!
# Errors and exit codes

Every failure is a value that names its cause. `message` gives the wording, and `exitCode` the code that the
command line ends with.
-/

namespace WorkWaves

/-- How the command line ends. -/
inductive ExitCode where
  | success
  | itemsFailed
  | interrupted
  | circularDependency
  | configError
  | stateError
  | ioError
  | internal
  deriving DecidableEq, Repr

def ExitCode.toInt : ExitCode → Int
  | .success => 0
  | .itemsFailed => 2
  | .interrupted => 3
  | .circularDependency => 10
  | .configError => 11
  | .stateError => 12
  | .ioError => 20
  | .internal => 50

/-- Why a call of the version control program fails. -/
inductive GitError where
  /-- The program could not be started. -/
  | spawn (args : String) (fault : FileFault)
  /-- The program ended with a code, or was killed. -/
  | failed (args : String) (code : Option Int) (stderr : String)
  | notARepository (path : String)
  deriving DecidableEq, Repr

namespace GitError

def message : GitError → String
  | .spawn args fault => "failed to spawn git " ++ args ++ ": " ++ fault.message
  | .failed args code stderr =>
    "git " ++ args ++ " exited with " ++ (match code with
      | some c => toString c
      | none => "signal") ++ ": " ++ stderr
  | .notARepository path => "not a git repository: " ++ path

def stderr? : GitError → Option String
  | .failed _ _ stderr => some stderr
  | _ => none

end GitError

/-- A failure as collaborators report it: what was being done, the outermost first, and the cause. -/
structure Failure where
  contexts : List String := []
  /-- The cause and what lies behind it, as texts. -/
  cause : String
  behind : List String := []
  /-- The failed call of the version control program, if that is the cause. -/
  git : Option GitError := none
  deriving DecidableEq, Repr

namespace Failure

/-- The failure with a word on what was being done. -/
def within (f : Failure) (context : String) : Failure := { f with contexts := context :: f.contexts }

def texts (f : Failure) : List String := f.contexts ++ f.cause :: f.behind

/-- The outermost text. -/
def headline (f : Failure) : String := f.texts.headD f.cause

/-- All texts, from the outermost to the cause. -/
def full (f : Failure) : String := ": ".intercalate f.texts

def ofText (text : String) : Failure := { cause := text }

/-- A failure given by its texts, the outermost first. -/
def ofTexts : List String → Failure
  | [] => { cause := "" }
  | [a] => { cause := a }
  | a :: r => (ofTexts r).within a

/-- The failure that an error of the version control program is. -/
def ofGit (e : GitError) : Failure :=
  { cause := e.message
    behind := match e with
      | .spawn _ fault => [fault.message]
      | _ => []
    git := some e }

end Failure

/-- Why a run cannot be planned or has to be given up. -/
inductive RunError where
  | graph (e : GraphError)
  | state (e : StateError)
  | git (e : GitError)
  | workers (message : String)
  deriving DecidableEq, Repr

namespace RunError

def message : RunError → String
  | .graph e => e.message
  | .state e => "execution state error: " ++ e.message
  | .git e => "shared repository error: " ++ e.message
  | .workers m => "worker pool error: " ++ m

def exitCode : RunError → ExitCode
  | .graph (.circular _) => .circularDependency
  | .graph _ => .configError
  | .state _ => .stateError
  | .git _ => .ioError
  | .workers _ => .internal

end RunError

/-- Why a command fails. -/
inductive CommandError where
  | run (e : RunError)
  | config (message : String)
  | input (message : String)
  /-- The manifest cannot be read. -/
  | unreadable (path : String) (fault : FileFault)
  | io (message : String)
  | other (f : Failure)
  deriving DecidableEq, Repr

namespace CommandError

/-- The wording for a manifest that cannot be read, as far as it does not depend on the system. -/
def unreadableManifest (path : String) : String := "invalid input: cannot read manifest " ++ path

def message : CommandError → String
  | .run e => "executor failed: " ++ e.message
  | .config m => "config error: " ++ m
  | .input m => "invalid input: " ++ m
  | .unreadable path fault => unreadableManifest path ++ ": " ++ fault.message
  | .io m => "io error: " ++ m
  | .other f => f.headline

def exitCode : CommandError → ExitCode
  | .run e => e.exitCode
  | .config _ | .input _ | .unreadable _ _ => .configError
  | .io _ => .ioError
  | .other _ => .internal

end CommandError

end WorkWaves
