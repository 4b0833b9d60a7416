import WorkWaves.Cli.Help
import WorkWaves.Cli.Running

/-!
# The program

From the words of the command line to the exit code: the settings are loaded, logging is set up, and the
command is carried out. A failure is told to the side.
-/

namespace WorkWaves.Program

variable {μ : Type}

def version : String := "wavesmith 0.3.0"

/-- What is told about a command line that does not lead to a command. -/
def wording : UsageFault → String
  | .help topic => (HelpPage.ofTopic topic).text
  | .nothingAsked => HelpPage.ofProgram.text
  | .version => version
  | .missingCommand => "error: a subcommand is required"
  | .unknownCommand => "error: unrecognized subcommand"
  | .unknownArgument => "error: unexpected argument"
  | .missingArgument => "error: the argument '--items <ITEMS>' was not provided"
  | .missingValue => "error: a value is required"
  | .badValue => "error: invalid value"
  | .needlessValue => "error: unexpected value"
  | .repeated => "error: an argument was used multiple times"

/-- Tells about a command line that does not lead to a command. What was asked for is no failure. -/
def refuse (f : UsageFault) (m : Machine μ) : Int × Machine μ :=
  match f with
  | .help _ | .version => (0, m.print (wording f))
  | _ => (2, m.complain (wording f))

/-- The directory for files of the log. -/
def logDirectory (s : LoggingSettings) (m : Machine μ) : String :=
  let named := (s.directory.map Text.trim).filter fun d => !d.isEmpty
  match named, Settings.dataDir m.environment with
  | some d, _ => Path.expandHome m.home? d
  | none, .ok d => Path.join d "logs"
  | none, .error _ => Path.join ((m.environment.get? "TMPDIR").getD "/tmp") "wavesmith"

/-- The filter that the environment or the settings give. Words of the environment that say nothing are told
to the side. -/
def logFilter (s : LoggingSettings) (m : Machine μ) : Except CommandError LogFilter × Machine μ :=
  match Settings.said? m.environment "RUST_LOG" with
  | some v =>
    let (filter, others) := LogFilter.ofDirectives v
    (.ok filter, others.foldl (fun m w => m.complain ("ignoring \x60" ++ w ++ "\x60")) m)
  | none =>
    match LogFilter.ofText? s.level with
    | some filter => (.ok filter, m)
    | none => (.error (.config "invalid filter directive"), m)

/-- Makes the file of the day for the log, and tells its path. -/
def openLog (s : LoggingSettings) (m : Machine μ) : Except CommandError String × Machine μ :=
  let dir := logDirectory s m
  match m.files.makeDirectories dir with
  | (files, .error e) => (.error (.config ("create log dir failed: " ++ e.message)), { m with files := files })
  | (files, .ok ()) =>
    let path := Path.join dir ("wavesmith.log." ++ (m.now.text.take 10).toString)
    match files.write path ((files.read path).toOption.getD "") with
    | .ok files => (.ok path, { m with files := files })
    | .error _ => (.ok path, { m with files := files })

/-- Sets logging up. -/
def startLogging (s : LoggingSettings) : Task μ CommandError Unit := do
  if !s.enabled then return ()
  let filter ← ExceptT.mk (modifyGet (logFilter s))
  let file ← if s.file then some <$> ExceptT.mk (modifyGet (openLog s)) else pure none
  if !s.console && file.isNone then
    throw (.config "logging disabled for both console and file")
  modify fun m => { m with logging := ⟨filter, s.console, file⟩ }

/-- Carries out what a command line says. -/
def carryOut (a : Arguments) (ascii : Bool) : Task μ CommandError ExitCode := do
  let m ← get
  let s ← match Settings.load m.files m.environment a.config with
    | .ok s => pure s
    | .error e => throw (.config e.full)
  startLogging s.logging
  match a.command with
  | .plan p => p.execute s ascii
  | .run r => r.execute s ascii false
  | .resume r => r.execute s ascii true

/-- Runs the program on the words behind its name; tells the exit code. -/
def run (words : List String) (ascii : Bool) (m : Machine μ) : Int × Machine μ :=
  match Arguments.ofWords words with
  | .error f => refuse f m
  | .ok a =>
    match (carryOut a ascii).run m with
    | (.ok code, m) => (code.toInt, m)
    | (.error e, m) => (e.exitCode.toInt, m.complain e.message)

end WorkWaves.Program
