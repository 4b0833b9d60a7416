import Std.Time.DateTime.Timestamp
import WorkWaves.Cli.Program

/-!
# The command line

The program on a real file system. The files that a command may read are taken up first, the command works on
them, and what it changed is written back. No other program is started from here: `plan` needs none, and `run`
and `resume` end where git is called.
-/

namespace WorkWaves.Shell

/-- The variables that mean something. -/
def variableNames : List String :=
  ["HOME", "USERPROFILE", "TMPDIR", "RUST_LOG", "WAVESMITH_MAX_WORKERS", "WAVESMITH_WORKER_TIMEOUT_SECS",
    "WAVESMITH_FIXER", "WAVESMITH_STATE_PATH"]

def environment : IO Environment :=
  variableNames.foldlM (fun env name => do
    match ← IO.getEnv name with
    | some v => return env.insert name v
    | none => return env) ∅

/-- Takes up a directory and those above it. -/
def takeDirectory (files : FileTree) (path : String) : FileTree := (files.makeDirectories path).1

/-- Takes up a file by its text. -/
def takeText (files : FileTree) (path text : String) : FileTree :=
  let files := takeDirectory files ((Path.parent? path).getD "")
  match files.write path text with
  | .ok files => files
  | .error _ => files

/-- Takes up what is at a path, if anything is. -/
def take (files : FileTree) (path : String) : IO FileTree := do
  let real := (← IO.currentDir) / path
  if ← real.isDir then return takeDirectory files path
  else if ← real.pathExists then return takeText files path (← IO.FS.readFile real)
  else return files

/-- Takes up a directory with the names in it. -/
def takeNames (files : FileTree) (path : String) : IO FileTree := do
  let real := (← IO.currentDir) / path
  if !(← real.isDir) then take files path
  else
    (← real.readDir).toList.foldlM (fun files entry => do
      let inner := Path.join path entry.fileName
      if ← entry.path.isDir then return takeDirectory files inner
      else return takeText files inner "") (takeDirectory files path)

/-- The files of settings that may be read. -/
def settingsFiles (env : Environment) (a : Arguments) : List String :=
  a.config.toList ++ Settings.localFile :: (Settings.userFile? env).toList

/-- The manifest that a command names, and the directory that it names as the repository. -/
def named (a : Arguments) : String × Option String :=
  match a.command with
  | .plan p => (p.items, p.repo)
  | .run r | .resume r => (r.items, r.repo)

/-- Takes up what a command may read. -/
def takeFor (env : Environment) (a : Arguments) (files : FileTree) : IO FileTree := do
  let files ← (settingsFiles env a).foldlM take files
  let (items, repo) := named a
  let files ← take files items
  match Settings.load files env a.config with
  | .error _ => return files
  | .ok s =>
    let root := (repo.map (Path.expandHome (env.get? "HOME"))).getD "."
    let files ← takeNames files (Path.join root s.merge.archiveDir)
    take files (Path.join root s.state.path)

/-- The working directory and nothing else. -/
def start : IO FileTree := do
  let dir := (← IO.currentDir).toString
  return { takeDirectory {} dir with here := Path.names (Path.components dir) }

/-- A random name for a run. -/
def runId : IO String := do
  let bytes := (← IO.getRandomBytes 16).toList
  let digits := bytes.flatMap fun b => [Json.hexDigit (b.toNat / 16), Json.hexDigit (b.toNat % 16)]
  let part (skip len : Nat) : String := String.ofList ((digits.drop skip).take len)
  return "-".intercalate [part 0 8, part 8 4, "4" ++ part 13 3, "8" ++ part 17 3, part 20 12]

def now : IO Timestamp := do
  return .ofNanoseconds (← Std.Time.Timestamp.now).toNanosecondsSinceUnixEpoch.val

/-- No program can be started. -/
def programs : Programs Unit := ⟨fun _ files s => (.error .notFound, files, s)⟩

/-- Writes back what was changed. -/
def putBack (before after : FileTree) : IO Unit :=
  after.entries.forM fun (place, entry) => do
    if before.entry? place != some entry then
      let real := (← IO.currentDir) / FileTree.pathOf place
      match entry with
      | .directory => IO.FS.createDirAll real
      | .file text => do
        IO.FS.createDirAll ((← IO.currentDir) / FileTree.pathOf place.dropLast)
        IO.FS.writeFile real text

end WorkWaves.Shell

open WorkWaves in
/-- Runs the program on the words of the command line. -/
def main (words : List String) : IO UInt32 := do
  let env ← Shell.environment
  let files ← Shell.start
  let files ← match Arguments.ofWords words with
    | .ok a => Shell.takeFor env a files
    | .error _ => pure files
  let machine : Machine Unit :=
    { programs := Shell.programs, kept := (), files := files, environment := env, now := ← Shell.now
      runId := ← Shell.runId }
  let (code, after) := Program.run words (!(← (← IO.getStdout).isTty)) machine
  after.printed.reverse.forM fun text => IO.println text
  after.complaints.reverse.forM fun text => IO.eprintln text
  Shell.putBack files after.files
  return code.toNat.toUInt32
