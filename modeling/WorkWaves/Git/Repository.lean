import WorkWaves.Git.Command
import WorkWaves.Git.Porcelain
import WorkWaves.Merge.Calls
import WorkWaves.Text.Lines

/-!
# Repositories

A repository is known by the directory at its top, in which git is called for it.
-/

namespace WorkWaves.Git

variable {μ : Type}

/-- A repository, by the directory at its top. -/
structure Repository where
  root : String
  deriving DecidableEq, Repr

namespace Repository

/-- The repository that a directory lies in. -/
def containing (directory : String) : Task μ GitError Repository := fun m =>
  let (answer, m) := (ask directory ["rev-parse", "--show-toplevel"]).run m
  match answer with
  | .ok root => (.ok ⟨root⟩, m)
  | .error _ => (.error (.notARepository directory), m)

def dirtyFiles (r : Repository) : Task μ GitError (List DirtyFile) := do
  let p ← check r.root ["status", "--porcelain=v1", "-z", "--untracked-files=no"]
  return Porcelain.files p.stdoutText

/-- Calls git, which has to end well. -/
def order (r : Repository) (args : List String) : Task μ GitError Unit := do
  let _ ← check r.root args

/-- Merges a branch. A merge that stops is a conflict if it leaves files behind that do not fit. -/
def merge (r : Repository) (branch message : String) : Task μ GitError MergeAttempt := do
  let p ← run r.root ["merge", "--no-ff", "--no-edit", "-m", message, branch]
  if p.success then return .merged
  let files := Text.lines (← ask r.root ["diff", "--name-only", "--diff-filter=U"])
  if files.isEmpty then throw (failure ("merge --no-ff " ++ branch) p)
  return .conflict files

/-- Has git do something, and tells a failure as one of a collaborator. -/
def reported {α : Type} (t : Task μ GitError α) : Work μ (Except Failure α) := fun m =>
  let (answer, m) := t.run m
  (answer.mapError Failure.ofGit, m)

/-- What the repository answers to the calls of a merge. -/
def answer (r : Repository) : (c : RepositoryCall) → Work μ c.Answer
  | .head => reported (ask r.root ["rev-parse", "HEAD"])
  | .dirtyFiles => reported r.dirtyFiles
  | .existing => fun m => (m.files.pathExists, m)
  | .stashPush paths message => reported (r.order (["stash", "push", "-m", message, "--"] ++ paths))
  | .stashPop => reported (r.order ["stash", "pop"])
  | .merge branch message => reported (r.merge branch message)
  | .abort => reported (r.order ["merge", "--abort"])
  | .resetHard rev => reported (r.order ["reset", "--hard", rev])
  | .resetMerge rev => reported (r.order ["reset", "--merge", rev])

end Repository

end WorkWaves.Git
