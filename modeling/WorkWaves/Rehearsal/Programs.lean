import WorkWaves.Machine

/-!
# Rehearsed programs

Programs that follow a script and write down how they were called. With them a machine shows what commands do
without git, and without a fixer that does anything.
-/

namespace WorkWaves.Rehearsal

/-- How a program ends when its turn comes. -/
structure ProgramScript where
  code : Int := 0
  stdout : List UInt8 := []
  stderr : List UInt8 := []
  /-- Whether it is killed when it has written that. -/
  killed : Bool := false
  deriving DecidableEq, Repr

/-- What git does when its arguments begin so; perhaps only some times. -/
structure ProgramRule where
  on : String
  times : Option Nat := none
  script : ProgramScript := {}
  deriving DecidableEq, Repr

/-- Which of the rehearsed programs was called. -/
inductive Rehearsed where
  | git
  | fixer
  deriving DecidableEq, Repr

/-- A call of a rehearsed program. -/
structure ProgramCall where
  program : Rehearsed
  args : List String
  place : Place
  env : Environment
  deriving DecidableEq, Repr

/-- The scripts, and what happened so far. -/
structure Stage where
  rules : List ProgramRule := []
  /-- By item. -/
  fixes : StringMap ProgramScript := ∅
  /-- The name under which the fixer is found. -/
  fixerName : String
  /-- The latest call first. -/
  calls : List ProgramCall := []

/-- How a program ends that follows a script; codes are bytes. -/
def ProgramScript.outcome (s : ProgramScript) : ProcessEnd where
  code := if s.killed then none else some (s.code % 256)
  stdout := s.stdout
  stderr := s.stderr

/-- Whether a rule is meant by arguments, and may still be used. -/
def ProgramRule.applies (r : ProgramRule) (line : String) : Bool :=
  r.on.toList.isPrefixOf line.toList && r.times != some 0

/-- Uses a rule once. -/
def ProgramRule.use (r : ProgramRule) : ProgramRule := { r with times := r.times.map (· - 1) }

/-- The script of the first rule that applies, and the rules after its use. -/
def choose (line : String) : List ProgramRule → ProgramScript × List ProgramRule
  | [] => ({}, [])
  | r :: rest =>
    if r.applies line then (r.script, r.use :: rest)
    else
      let (script, rest) := choose line rest
      (script, r :: rest)

/-- What git does to the files when it ends well: a worktree is a directory. -/
def effect (args : List String) (files : FileTree) : FileTree :=
  match args with
  | "worktree" :: "add" :: "-b" :: _ :: path :: _ => (files.makeDirectories path).1
  | ["worktree", "remove", "--force", path] =>
    match files.removeDirectory path with
    | .ok files => files
    | .error _ => files.removeFile path
  | _ => files

/-- A call of git. -/
def callGit (i : Invocation) (files : FileTree) (s : Stage) : ProcessEnd × FileTree × Stage :=
  let (script, rules) := choose (" ".intercalate i.args) s.rules
  let ending := script.outcome
  (ending, if ending.success then effect i.args files else files,
    { s with rules := rules, calls := ⟨.git, i.args, files.here, i.env⟩ :: s.calls })

/-- A call of the fixer. -/
def callFixer (i : Invocation) (files : FileTree) (s : Stage) : ProcessEnd × Stage :=
  let script := ((i.env.get? "WAVESMITH_ITEM_ID").bind s.fixes.get?).getD {}
  (script.outcome, { s with calls := ⟨.fixer, i.args, files.here, i.env⟩ :: s.calls })

/-- How a path fails as the path of a program: none of the files may be executed, and no directory is. -/
def refusal (files : FileTree) (path : String) : FileFault :=
  match files.locate path with
  | .ok place => if (files.entry? place).isSome then .denied else .notFound
  | .error e => e

/-- The paths at which a search path has a program looked for; an empty part is the working directory. -/
def candidates (searchPath name : String) : List String :=
  (Text.splitAt (· == ':') searchPath.toList).map fun dir => Path.join (String.ofList dir) name

/-- How a search fails that finds no program: a path at which there is something else is what counts. -/
def searchRefusal (files : FileTree) (searchPath name : String) : FileFault :=
  let faults := (candidates searchPath name).map (refusal files)
  if faults.contains .nameTooLong then .nameTooLong
  else if faults.contains .denied then .denied else .notFound

/-- How a name fails that is neither that of git nor that of the fixer. Only those two lie on the search path,
but a directory has itself and the one above it too. -/
def nameRefusal (name : String) : FileFault :=
  if name = "." ∨ name = ".." then .denied
  else if name.utf8ByteSize > FileTree.longestName then .nameTooLong else .notFound

/-- The programs of a rehearsal. They are found by name while the search path is what it was. -/
def programs : Programs Stage where
  launch i files s :=
    if i.program.isEmpty then (.error .notFound, files, s)
    else if i.program.toList.contains '/' then (.error (refusal files i.program), files, s)
    else match i.env.get? "PATH" with
      | some searchPath => (.error (searchRefusal files searchPath i.program), files, s)
      | none =>
        if i.program = "git" then
          let (ending, files, s) := callGit i files s
          (.ok ending, files, s)
        else if i.program = s.fixerName then
          let (ending, s) := callFixer i files s
          (.ok ending, files, s)
        else (.error (nameRefusal i.program), files, s)

end WorkWaves.Rehearsal
