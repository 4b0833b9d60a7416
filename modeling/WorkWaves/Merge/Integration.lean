import WorkWaves.Merge.Calls
import WorkWaves.Workspace

/-!
# Merging a branch, wholly or not at all

One merge at a time holds the lock. Local changes are put aside, the branch is merged, and the changes are
brought back. When the merge does not land, or the changes no longer fit, the repository goes back to the
commit it was on.
-/

namespace WorkWaves

/-- How the merge of a branch ends when no call fails for good. -/
inductive MergeOutcome where
  | merged
  /-- The repository is as it was before. -/
  | conflict (files : List String)
  /-- Nothing was touched. -/
  | interrupted
  deriving DecidableEq, Repr

namespace Merge

/-- A dialogue with the keeper of the repository. -/
abbrev Talk := Dialogue MergeCall MergeCall.Answer

/-- Asks the repository. -/
def repository (c : RepositoryCall) : Talk c.Answer := .ask (.repository c) .done

def lock : Talk Unit := .ask .lock .done

def unlock : Talk Unit := .ask .unlock .done

/-- Asks whether to stop. -/
def interrupted : Talk Bool := .ask .interrupted .done

/-- Writes down what is done. -/
def write (level : LogLevel) (text : String) (fields : LogFields := []) : Talk Unit :=
  .ask (.write { level := level, area := .merge, text := text, fields := fields }) .done

/-- Writes down that something failed. -/
def writeError (level : LogLevel) (text : String) (e : Failure) : Talk Unit :=
  write level text [("error", .text e.headline)]

/-- Paths as they are written down. -/
def shownPaths (paths : List String) : LogValue := .text (", ".intercalate paths)

/-- The merge of a workspace, as a piece of work. -/
def span (w : Workspace) : LogSpan :=
  ⟨"merge", .merge, [("item_id", .text w.itemId), ("branch", .text w.branch)]⟩

/-- Goes back to a commit, unless the repository is on it. -/
def returnTo (head : String) : Talk (Except Failure Unit) := do
  match ← repository .head with
  | .error e => return .error e
  | .ok now => if now = head then return .ok () else repository (.resetHard head)

/-- Undoes a merge that did not land. A conflict that cannot be called off is dropped with all changes. -/
def rollback (head : String) (conflicted : Bool) : Talk (Except Failure Unit) := do
  match ← repository .abort with
  | .ok () => returnTo head
  | .error e =>
    if conflicted then
      writeError .warn "merge --abort failed, resetting" e
      repository (.resetHard head)
    else
      writeError .debug "No merge to abort" e
      returnTo head

/-- Merges a branch, and undoes it when it does not land. -/
def attempt (head branch message : String) : Talk (Except Failure MergeOutcome) := do
  match ← repository (.merge branch message) with
  | .ok .merged =>
    write .info "Merged"
    return .ok .merged
  | .ok (.conflict files) =>
    write .warn "Merge conflict, rolling back" [("files", shownPaths files)]
    match ← rollback head true with
    | .ok () => return .ok (.conflict files)
    | .error e => return .error e
  | .error e =>
    writeError .warn "Merge failed, rolling back" e
    match ← rollback head false with
    | .ok () => return .error e
    | .error e' => return .error (e.within e'.headline)

/-- Undoes a merge with which the changes that were put aside do not fit, and brings them back. -/
def restore (head : String) : Talk (Except Failure Unit) := do
  match ← repository (.resetMerge head) with
  | .error e => return .error (e.within "failed to undo merge after stash clash")
  | .ok () =>
    match ← repository .stashPop with
    | .error e => return .error (e.within "failed to restore stashed changes")
    | .ok () => return .ok ()

/-- Brings the changes back that were put aside. If they do not fit, the merge is undone, and counts as one
that conflicts in their paths. -/
def bringBack (head : String) (paths : List String) (result : Except Failure MergeOutcome) :
    Talk (Except Failure MergeOutcome) := do
  match ← repository .stashPop with
  | .ok () => return result
  | .error e =>
    writeError .warn "Stashed changes clash with the merge, undoing it" e
    match ← restore head with
    | .error e' => return .error (e.within e'.headline)
    | .ok () =>
      match result with
      | .ok .merged => return .ok (.conflict paths)
      | other => return other

/-- Merges a branch while the changes of some paths are put aside. -/
def withoutChanges (w : Workspace) (message head : String) (paths : List String) :
    Talk (Except Failure MergeOutcome) := do
  if paths.isEmpty then attempt head w.branch message
  else
    match ← repository (.stashPush paths ("wavesmith: before merging " ++ w.itemId)) with
    | .error e => return .error (e.within "failed to stash local changes")
    | .ok () =>
      write .debug "Stashed local changes" [("count", .count paths.length)]
      let result ← attempt head w.branch message
      bringBack head paths result

/-- Merges a branch around the changes that may be put aside. -/
def around (x : Exclusions) (w : Workspace) (message head : String) :
    Talk (Except Failure MergeOutcome) := do
  match ← repository .dirtyFiles with
  | .error e => return .error e
  | .ok files =>
    let present ← repository .existing
    let excluded := files.filter (x.excludes present)
    unless excluded.isEmpty do
      write .debug "Leaving excluded paths in place" [("paths", shownPaths (excluded.map (·.path)))]
    withoutChanges w message head (x.stashPaths present files)

/-- What is done while the lock is held. -/
def underLock (x : Exclusions) (w : Workspace) (message : String) :
    Talk (Except Failure MergeOutcome) := do
  if ← interrupted then
    write .info "Interrupt pending, merge not attempted"
    return .ok .interrupted
  match ← repository .head with
  | .error e => return .error (e.within "failed to read HEAD")
  | .ok head => around x w message head

/-- Merges the branch of a workspace into the shared repository. -/
def integrate (x : Exclusions) (w : Workspace) (message : String) :
    Talk (Except Failure MergeOutcome) := do
  lock
  let result ← underLock x w message
  unlock
  return result

end Merge

end WorkWaves
