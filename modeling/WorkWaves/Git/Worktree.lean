import WorkWaves.Git.Command
import WorkWaves.Workspace

/-!
# Workspaces as worktrees

Each workspace is a worktree of the repository on a branch of its own, cut from the commit that the
repository is on. What an earlier attempt left at the same place is cleared first.
-/

namespace WorkWaves.Git

variable {μ : Type}

/-- The worktrees of a repository. -/
structure Worktrees where
  /-- The directory at the top of the repository. -/
  repository : String
  names : WorkspaceNames
  deriving DecidableEq, Repr

namespace Worktrees

/-- A call of git on the way to something larger. -/
def call {α : Type} (t : Task μ GitError α) : Task μ Failure α := ExceptT.adapt Failure.ofGit t

/-- Removes a worktree. -/
def discard (w : Worktrees) (path : String) : Task μ GitError Unit := do
  let _ ← check w.repository ["worktree", "remove", "--force", path]

/-- Deletes a directory that git does not remove. -/
def delete (path : String) : Task μ Failure Unit := fun m =>
  match m.files.removeDirectory path with
  | .ok files => (.ok (), { m with files := files })
  | .error e => (.error ((Failure.ofText e.message).within ("cannot remove " ++ path)), m)

/-- Clears a place that something lies at. -/
def clearPath (w : Worktrees) (path : String) : Task μ Failure Unit := do
  if (← get).files.pathExists path then
    modify (Machine.log .warn .worktree "Removing stale worktree" [("path", .text path)])
    tryCatch (call (w.discard path)) fun _ => delete path

/-- Clears what an earlier attempt left. -/
def clear (w : Worktrees) (path branch : String) : Task μ Failure Unit := do
  w.clearPath path
  let _ ← call (run w.repository ["worktree", "prune"])
  if ← call (branchExists w.repository branch) then
    modify (Machine.log .debug .worktree "Deleting stale branch" [("branch", .text branch)])
    let _ ← call (deleteBranch w.repository branch)

/-- Makes the directory in which the worktrees lie. -/
def makeRoot (w : Worktrees) : Task μ Failure Unit := fun m =>
  let (files, made) := m.files.makeDirectories w.names.root
  (made.mapError fun e => (Failure.ofText e.message).within ("cannot create " ++ w.names.root),
    { m with files := files })

/-- Makes the workspace of an item. -/
def create (w : Worktrees) (itemId : String) : Task μ Failure Workspace := do
  let path := w.names.pathFor itemId
  let branch := w.names.branchFor itemId
  w.clear path branch
  w.makeRoot
  let _ ← call (check w.repository ["worktree", "add", "-b", branch, path, "HEAD"])
  modify (Machine.log .info .worktree "Created worktree"
    [("item_id", .text itemId), ("branch", .text branch), ("path", .text path)])
  return ⟨itemId, branch, path⟩

/-- Commits what changed in a workspace; tells whether its branch has anything that the repository lacks. -/
def commit (w : Worktrees) (s : Workspace) (message : String) : Task μ Failure Bool := do
  let _ ← call (check s.path ["add", "-A"])
  let staged ← call (run s.path ["diff", "--cached", "--quiet"])
  unless staged.success do
    let _ ← call (check s.path ["commit", "-q", "--no-verify", "-m", message])
  let ahead ← call (ask w.repository ["rev-list", "--count", "HEAD.." ++ s.branch])
  let n := (Text.number ahead).toOption.getD 0
  modify (Machine.log .debug .worktree "Workspace committed" [("item_id", .text s.itemId), ("ahead", .count n)])
  return n != 0

/-- Takes a workspace away, with its branch if that is possible. -/
def remove (w : Worktrees) (s : Workspace) : Task μ Failure Unit := do
  call (w.discard s.path)
  unless ← call (deleteBranch w.repository s.branch) do
    modify (Machine.log .warn .worktree "Branch not deleted" [("branch", .text s.branch)])
  modify (Machine.log .info .worktree "Removed worktree" [("item_id", .text s.itemId)])

end Worktrees

end WorkWaves.Git
