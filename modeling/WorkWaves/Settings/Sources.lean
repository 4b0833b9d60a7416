import WorkWaves.Settings.Text
import WorkWaves.Error
import WorkWaves.Text.Blank
import WorkWaves.Text.Number

/-!
# Where settings come from

A file named on the command line, or else one in the working directory, or else one in the home directory;
then the environment has the last word.
-/

namespace WorkWaves

/-- The variables of an environment. -/
abbrev Environment := StringMap String

namespace Settings

/-- A variable that says something. -/
def said? (env : Environment) (name : String) : Option String :=
  (env.get? name).bind fun v => if (Text.trim v).isEmpty then none else some v

/-- A number that a variable says. -/
def saidNumber (env : Environment) (name : String) (otherwise : Nat) : Except Failure Nat :=
  match said? env name with
  | none => .ok otherwise
  | some v =>
    (Text.number (Text.trim v)).mapError fun e =>
      (Failure.ofText e.message).within (name ++ " must be a number, got '" ++ v ++ "'")

/-- The settings after the environment had its word. -/
def override (env : Environment) (s : Settings) : Except Failure Settings := do
  let workers ← saidNumber env "WAVESMITH_MAX_WORKERS" s.scheduler.maxWorkers
  let timeout ← saidNumber env "WAVESMITH_WORKER_TIMEOUT_SECS" s.scheduler.workerTimeoutSecs
  return { s with
    scheduler := { s.scheduler with maxWorkers := workers, workerTimeoutSecs := timeout }
    fixer := { s.fixer with command := (said? env "WAVESMITH_FIXER").getD s.fixer.command }
    state := { s.state with path := (said? env "WAVESMITH_STATE_PATH").getD s.state.path } }

/-- The directory for data of the user. -/
def dataDir (env : Environment) : Except Failure String :=
  match (env.get? "HOME").or (env.get? "USERPROFILE") with
  | some home => .ok (Path.join home ".wavesmith")
  | none => .error (Failure.ofText "Cannot determine home directory")

/-- The file of settings of the user. -/
def userFile? (env : Environment) : Option String :=
  match dataDir env with
  | .ok dir => some (Path.join dir "config.toml")
  | .error _ => none

/-- Reads a file of settings. -/
def readFile (files : FileTree) (path : String) : Except Failure Settings :=
  match files.read path with
  | .error e => .error ((Failure.ofText e.message).within ("failed to read config " ++ path))
  | .ok text =>
    match ofText? text with
    | some s => .ok s
    | none => .error ((Failure.ofText "malformed").within ("failed to parse config " ++ path))

/-- The file in the working directory. -/
def localFile : String := "wavesmith.toml"

/-- The settings that hold: from the first file there is, with the environment's word. -/
def load (files : FileTree) (env : Environment) (explicit : Option String) :
    Except Failure Settings := do
  let s ← match explicit with
    | some path => readFile files path
    | none =>
      if files.pathExists localFile then readFile files localFile
      else match userFile? env with
        | some path => if files.pathExists path then readFile files path else .ok {}
        | none => .ok {}
  s.override env

end Settings

end WorkWaves
